import TidyUse.Text.Quoted

/-!
# UTF-8

* `Utf8Error` : the first bytes of a file that are no UTF-8, where they stand and why; its `message`;
* `lead` : what a first byte announces;
* `decodeUtf8`, `encodeUtf8` : bytes as text and back.
-/

namespace TidyUse.Text

inductive Utf8Error.Reason
  | startByte
  | continuationByte
  | endOfData
deriving DecidableEq

structure Utf8Error where
  position : Nat
  first : UInt8
  /-- How many bytes are at fault. -/
  length : Nat
  reason : Utf8Error.Reason
deriving DecidableEq

def Utf8Error.Reason.message : Utf8Error.Reason → String
  | startByte => "invalid start byte"
  | continuationByte => "invalid continuation byte"
  | endOfData => "unexpected end of data"

def Utf8Error.message (e : Utf8Error) : String :=
  let place :=
    if e.length = 1 then
      "byte 0x" ++ String.ofList (hex 2 e.first.toNat) ++ " in position " ++ toString e.position
    else
      "bytes in position " ++ toString e.position ++ "-" ++ toString (e.position + e.length - 1)
  "'utf-8' codec can't decode " ++ place ++ ": " ++ e.reason.message

/-- What a first byte gives of a code point, and the ranges in which the bytes behind it must lie. -/
def lead (b : UInt8) : Option (Nat × List (Nat × Nat)) :=
  let n := b.toNat
  let any := (0x80, 0xbf)
  if n < 0x80 then some (n, [])
  else if 0xc2 ≤ n ∧ n ≤ 0xdf then some (n - 0xc0, [any])
  else if n = 0xe0 then some (0, [(0xa0, 0xbf), any])
  else if n = 0xed then some (0xd, [(0x80, 0x9f), any])
  else if 0xe1 ≤ n ∧ n ≤ 0xef then some (n - 0xe0, [any, any])
  else if n = 0xf0 then some (0, [(0x90, 0xbf), any, any])
  else if 0xf1 ≤ n ∧ n ≤ 0xf3 then some (n - 0xf0, [any, any, any])
  else if n = 0xf4 then some (4, [(0x80, 0x8f), any, any])
  else none

/-- Reads the bytes behind a first byte. A failure tells how many of them were right. -/
def follow (value : Nat) :
    List (Nat × Nat) → List UInt8 → Except (Nat × Utf8Error.Reason) (Nat × List UInt8)
  | [], bytes => .ok (value, bytes)
  | _ :: _, [] => .error (0, .endOfData)
  | r :: rs, b :: bytes =>
    if r.1 ≤ b.toNat ∧ b.toNat ≤ r.2 then
      match follow (value * 64 + (b.toNat - 0x80)) rs bytes with
      | .ok result => .ok result
      | .error (n, reason) => .error (n + 1, reason)
    else .error (0, .continuationByte)

theorem length_follow_le {value n : Nat} {rs : List (Nat × Nat)} {bytes rest : List UInt8}
    (h : follow value rs bytes = .ok (n, rest)) : rest.length ≤ bytes.length := by
  induction rs generalizing value bytes with
  | nil => simp only [follow, Except.ok.injEq, Prod.mk.injEq] at h; simp [h.2]
  | cons r rs ih =>
    cases bytes with
    | nil => simp [follow] at h
    | cons b bytes =>
      unfold follow at h
      split at h
      · split at h
        · rename_i result hf
          simp only [Except.ok.injEq] at h
          subst h
          have := ih hf
          simp only [List.length_cons]
          omega
        · simp at h
      · simp at h

set_option linter.unusedVariables false in
/-- The text of some bytes, the first of which stands at `position`. -/
def decodeFrom (position : Nat) : List UInt8 → Except Utf8Error (List Char)
  | [] => .ok []
  | b :: bytes =>
    match lead b with
    | none => .error ⟨position, b, 1, .startByte⟩
    | some (value, ranges) =>
      match h : follow value ranges bytes with
      | .error (n, reason) => .error ⟨position, b, n + 1, reason⟩
      | .ok (code, rest) =>
        (decodeFrom (position + 1 + ranges.length) rest).map (Char.ofNat code :: ·)
termination_by bytes => bytes.length
decreasing_by
  have := length_follow_le h
  simp only [List.length_cons]
  omega

def decodeUtf8 (bytes : List UInt8) : Except Utf8Error (List Char) := decodeFrom 0 bytes

def encodeUtf8 (text : List Char) : List UInt8 := text.flatMap String.utf8EncodeChar

end TidyUse.Text
