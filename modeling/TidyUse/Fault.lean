import TidyUse.FileTree
import TidyUse.Toml.Reader
import TidyUse.Trace

/-!
# Faults

Most of what goes wrong is noted, and the run goes on. A fault ends it.

* `Fault` : what ends a run, and its `message`;
* `Guarded` : a traced value, unless a fault keeps it from being reached; the events up to the fault
  are kept;
* `Path.check` : a path that holds a null character is a fault.
-/

namespace TidyUse

/-- What ends a run. -/
inductive Fault
  /-- A path holds a null character. -/
  | nullInPath
  /-- It cannot be told what lies at a path. -/
  | inaccessible (path : Path) (e : FileError)
  /-- A manifest holds a whole number of so many digits, which are too many. -/
  | longInteger (digits : Nat)
  /-- The manifest to read is asked for without a name. -/
  | unnamedManifest
  /-- A call of the external formatter breaks off. -/
  | brokenCall (reason : String)
deriving DecidableEq

def Fault.message : Fault → String
  | nullInPath => "embedded null byte"
  | inaccessible path e => e.message path
  | longInteger digits =>
    "Exceeds the limit (" ++ toString Toml.maxDigits ++
      " digits) for integer string conversion: value has " ++ toString digits ++
      " digits; use sys.set_int_max_str_digits() to increase the limit"
  | unnamedManifest => "'list' object has no attribute 'open'"
  | brokenCall reason => reason

/-- A traced value, or a fault on the way to it. -/
abbrev Guarded := ExceptT Fault Traced

namespace Guarded

variable {α β : Type}

theorem value_bind (x : Guarded α) (k : α → Guarded β) :
    (x >>= k).run.value = x.run.value >>= fun a => (k a).run.value := by
  show (ExceptT.bindCont k x.run.value).value = _
  cases x.run.value <;> rfl

theorem value_lift_bind (x : Traced α) (k : α → Guarded β) :
    (liftM x >>= k : Guarded β).run.value = (k x.value).run.value := rfl

theorem events_lift_bind (x : Traced α) (k : α → Guarded β) :
    (liftM x >>= k : Guarded β).run.events = x.events ++ (k x.value).run.events := by
  show x.events ++ [] ++ _ = _
  rw [List.append_nil]
  rfl

theorem value_bind_pure (x : Guarded α) (f : α → β) :
    (x >>= fun a => pure (f a)).run.value = x.run.value.map f := by
  rw [value_bind]
  cases x.run.value <;> rfl

theorem value_bind_lift (x : Guarded α) (k : α → Traced β) :
    (x >>= fun a => liftM (k a)).run.value = x.run.value.map fun a => (k a).value := by
  rw [value_bind]
  cases x.run.value <;> rfl

theorem events_bind_pure (x : Guarded α) (f : α → β) :
    (x >>= fun a => pure (f a)).run.events = x.run.events := by
  show x.run.events ++ (ExceptT.bindCont (fun a => pure (f a)) x.run.value : Traced _).events = _
  cases x.run.value <;> exact List.append_nil _

end Guarded

/-- A path must hold no null character. -/
def Path.check (p : Path) : Guarded Unit :=
  if p.hasNull then throw .nullInPath else return ()

end TidyUse
