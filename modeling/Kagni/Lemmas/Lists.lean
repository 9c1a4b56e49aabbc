import Kagni.Commands.Basic
import Kagni.Commands.Lists
import Kagni.Lemmas.Content

/-!
# Lists under a key

What the helpers of the list commands do to the content: a list is found, changed in place, stored anew with its deadline, or
dropped when it is empty.
-/

namespace Kagni

open Lib Lib.Prog

variable {F : Type} {ctx : Ctx} {ks : Set Bytes} {s : Content F} {key : Bytes}

theorem ListRef.kind_obj (l : ListRef) : kind_of (l.obj : Obj F) = some .list := by
  cases l with
  | mk isDeque items => cases isDeque <;> rfl

theorem ListRef.obj_ne_null (l : ListRef) : (l.obj : Obj F) ≠ .raw .null := by
  cases l with
  | mk isDeque items => cases isDeque <;> simp [obj]

theorem ListRef.obj_injective {l l' : ListRef} (h : (l.obj : Obj F) = l'.obj) : l = l' := by
  obtain ⟨d, items⟩ := l
  obtain ⟨d', items'⟩ := l'
  cases d <;> cases d' <;> cases h <;> rfl

/-- A value that counts as a list is a `deque` or a plain list. -/
theorem exists_list_of_kind {v : Obj F} (h : kind_of v = some .list) : ∃ l : ListRef, v = l.obj := by
  cases v with
  | deque items => exact ⟨⟨true, items⟩, rfl⟩
  | raw v =>
    cases v with
    | array items => exact ⟨⟨false, items⟩, rfl⟩
    | _ => cases h
  | _ => cases h

/-- Under a key there is at most a list, or something else. -/
theorem list_or_other (s : Content F) (key : Value) :
    (∃ o : Option ListRef, s.value key = o.map ListRef.obj) ∨ ∃ v, s.value key = some v ∧ kind_of v ≠ some .list := by
  cases hvalue : s.value key with
  | none => exact .inl ⟨none, rfl⟩
  | some v =>
    by_cases hkind : kind_of v = some .list
    · obtain ⟨l, rfl⟩ := exists_list_of_kind hkind
      exact .inl ⟨some l, rfl⟩
    · exact .inr ⟨v, rfl, hkind⟩

/-- The items of a list. -/
def Obj.items? : Obj F → Option (List Value)
  | .deque items => some items
  | .raw (.array items) => some items
  | _ => none

theorem ListRef.items?_obj (l : ListRef) : (l.obj : Obj F).items? = some l.items := by
  cases l with
  | mk isDeque items => cases isDeque <;> rfl

/-- The list under a key. -/
def Content.list (s : Content F) (key : Value) : Option (List Value) := (s.value key).bind Obj.items?

theorem Content.list_of_value {lst : ListRef} {key : Value} (h : s.value key = some lst.obj) : s.list key = some lst.items := by
  rw [list, h, Option.bind_some, ListRef.items?_obj]

/-- A list is left under a key: with the deadline that is there, and not at all if it is empty. -/
def Content.leave (s : Content F) (key : Value) (lst : ListRef) : Content F :=
  if lst.items = [] then s.erase key else s.update key lst.obj

theorem Content.leave_empty (s : Content F) (key : Value) {lst : ListRef} (h : lst.items = []) :
    s.leave key lst = s.erase key := if_pos h

theorem Content.leave_of_ne (s : Content F) (key : Value) {lst : ListRef} (h : lst.items ≠ []) :
    s.leave key lst = s.update key lst.obj := if_neg h

/-- A value that is there is changed in place or stored with its deadline. -/
theorem Content.update_eq_change {v : Obj F} {key : Value} (h : s.value key = some v) (v' : Obj F) :
    s.update key v' = s.change key v' := by
  obtain ⟨e, he, -⟩ := exists_of_value h
  rw [update, change, he]
  rfl

/-- The list that is there can be left there. -/
theorem Content.leave_self {lst : ListRef} {key : Value} (h : s.value key = some lst.obj) (hne : lst.items ≠ []) :
    s.leave key lst = s := by
  rw [leave_of_ne s key hne, update_eq_change h, change_value h]

theorem steps_list (hctx : ctx.Purges ks s key) {o : Option ListRef} (h : s.value (.bytes key) = o.map ListRef.obj) :
    Steps ctx ks s (_list (.bytes key)) (.ok o) s := by
  refine steps_found hctx ListRef.kind_obj (fun o => ?_) h
  cases o with
  | none => rfl
  | some l =>
    cases l with
    | mk isDeque items => cases isDeque <;> rfl

theorem steps_list_error (hctx : ctx.Purges ks s key) {v : Obj F} (h : s.value (.bytes key) = some v)
    (hkind : kind_of v ≠ some .list) :
    Steps ctx ks s (_list (.bytes key)) (.error (.error .WRONGTYPE)) s := (steps_wrong_kind hctx h hkind).bind_error

/-- A look at a list that is there changes nothing at all. -/
theorem list_live_run {k : KState F} {l : ListRef} (h : (k.store.content ctx.clock.mono).value (.bytes key) = some l.obj) :
    _list (.bytes key) ctx k = (.ok (some l), k) := by
  have hkind : expect_kind (.bytes key) .list ctx k = (.ok (some l.obj), k) := by
    unfold expect_kind
    rw [bind_ok ctx k (get_live_run h)]
    dsimp only
    rw [if_pos (ListRef.kind_obj l)]
    rfl
  unfold _list
  rw [bind_ok ctx k hkind]
  cases l with
  | mk isDeque items => cases isDeque <;> rfl

/-- A look for a list whose purge raises. -/
theorem gives_list_error {k : KState F} (h : ¬ctx.Opens k key) :
    Gives (_list (.bytes key)) ctx k (.error .other) (k.store.content ctx.clock.mono)  :=
  Gives.bind_error (Gives.bind_error (gives_get_error h) _) _

/-! ## Two lists -/

/-- RPUSH has put a list under a key. -/
def pushedStore (key : Bytes) (items : List Value) : KState Int := (RPUSH (.bytes key) items Ctx.plain ⟨⟨∅, ∅⟩, [], 0⟩).2

/-- SET has put an array under a key, which is a plain list. -/
def arrayStore (key : Bytes) (items : List Value) : KState Int := (SET (.bytes key) (.array items) [] Ctx.plain ⟨⟨∅, ∅⟩, [], 0⟩).2

end Kagni
