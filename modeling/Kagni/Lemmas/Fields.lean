import Kagni.Lemmas.Content
import Kagni.Commands.Hash

/-!
# The fields of a hash

What a look at a field finds, and the hash after it: a field that has expired is purged by the first command that looks at it.
-/

namespace Kagni

open Lib Lib.Prog

variable {F : Type} {ctx : Ctx} {ks : Set Bytes} {s : Content F} {key : Bytes}

/-! ## One field -/

theorem steps_hashOrNew {o : Option Fields} (hctx : ctx.Purges ks s key) (h : s.value (.bytes key) = o.map .hash) :
    Steps ctx ks s (hashOrNew (.bytes key)) (.ok (o.getD ∅)) (o.elim (s.assign (.bytes key) (.hash ∅)) fun _ => s) := by
  refine (steps_hash hctx h).bind ?_
  cases o with
  | none => exact (steps_setitem key _).bind (.pure _)
  | some cur => exact .pure cur

namespace Fields

/-- The value and the deadline of a field that has not expired; a stored null is no value. -/
def live (now : Int) (cur : Fields) (field : Value) : Option (Value × Option Int) :=
  match cur.get field with
  | none | some (.plain .null) => none
  | some e => if e.expired now then none else some e.parts

/-- The hash after a look at a field. -/
def purge (now : Int) (cur : Fields) (field : Value) : Fields :=
  if (cur.get field).any (·.expired now) then cur.erase field else cur

/-- A field that is live was not purged. -/
theorem purge_of_live {now : Int} {cur : Fields} {field : Value} {l : Value × Option Int} (h : live now cur field = some l) :
    purge now cur field = cur := by
  unfold live at h
  unfold purge
  split at h
  · cases h
  · cases h
  · rename_i e _ he
    split at h
    · cases h
    · rename_i hexp
      rw [he, Option.any_some, if_neg hexp]

end Fields

theorem steps_field {cur : Fields} (h : s.value (.bytes key) = some (.hash cur)) (field : Bytes) :
    Steps ctx ks s (_field (.bytes key) cur (.bytes field))
      (.ok (Fields.live ctx.clock.wall cur (.bytes field), Fields.purge ctx.clock.wall cur (.bytes field)))
      (s.change (.bytes key) (.hash (Fields.purge ctx.clock.wall cur (.bytes field)))) := by
  have hsame := Content.change_value h
  refine (steps_needHash rfl).bind ?_
  unfold Fields.live Fields.purge
  split
  · rename_i hget
    rw [hget, Option.any_none, if_neg Bool.false_ne_true, hsame]
    exact .pure _
  · rename_i hget
    rw [hget, Option.any_some, if_neg (show ¬FieldEntry.expired (.plain .null) _ = true from Bool.false_ne_true), hsame]
    exact .pure _
  · rename_i e hnull hget
    rw [hget, Option.any_some]
    refine steps_clock.bind ?_
    by_cases hexp : e.expired ctx.clock.wall = true
    · simp only [if_pos hexp]
      exact (steps_store_value _ _).bind (.pure _)
    · simp only [if_neg hexp, hsame]
      exact .pure _

end Kagni
