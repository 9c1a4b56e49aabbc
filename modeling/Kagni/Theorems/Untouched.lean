import Kagni.Lemmas.Happenings

/-!
# A key that nobody names

Whatever the clients do, with notifications or without, and whenever the dumper runs: a key that no request names keeps its
value and its deadline, and expires when it would have.
-/

namespace Kagni

open Lib Lib.Prog

variable {F : Type}

/-- It does not name the key, and does not flush. -/
def Request.Spares (key : Value) : Request → Prop := Runs fun c args => c ∉ [.FLUSHDB, .FLUSHALL] ∧ key ∉ c.keys args

variable [PyFloat F]

/-- A key that no request names, while nobody flushes, has the live value and the deadline it was started with. -/
theorem untouched (env : Env) (port : Nat) (table : Option (Table F)) (storage : Dict Value (Entry F))
    (wired : SessionId → Bool) (key : Value)
    {happenings : List (Happening F)} (horder : InOrder Happening.time happenings)
    (hspares : ∀ x ∈ happenings, x.Requests (Request.Spares key))
    {now : Int} (hnow : ∀ x ∈ happenings, x.time ≤ now) :
    let s : Server F := .init port table storage wired
    ((final (Server.undergo env) s happenings).data.toStore.content now).lookup key =
      (s.data.toStore.content now).lookup key := by
  intro s
  refine store_undergo (P := fun now st => (st.content now).lookup key = (s.data.toStore.content now).lookup key) env ?_
    (fun hq hc => (hq _ hc).1) (fun hq hc hm ctx k hk => ?_) (fun ctx k hk => ?_) horder hspares (fun _ => rfl)
      (queued_init _ port table storage wired) hnow
  · intro now now' st hle hst
    rw [Store.lookup_later _ hle, Store.lookup_later _ hle, hst]
  · exact (lookup_of_command hm (hq _ hc).2 k).trans hk
  · exact (congrArg (Finmap.lookup key) (content_of_snapshot ctx k)).trans hk

/-- A server with a key, a client that turns the notifications on and works on another one, and a dump. -/
def elsewhere : List (Happening Int) :=
  [.arrival (.message ⟨0, 0⟩ 0 (some 0)
    (.array [.bytes (bs "CONFIG"), .bytes (bs "SET"), .bytes (bs "notify-keyspace-events"), .bytes (bs "KEA")])),
    .arrival (.message ⟨1, 1⟩ 0 (some 0) (.array [.bytes (bs "SET"), .bytes (bs "b"), .bytes (bs "2")])),
    .wake ⟨2, 2⟩,
    .arrival (.message ⟨3, 3⟩ 0 (some 1) (.array [.bytes (bs "DBSIZE")]))]

/-- The key is still there. -/
theorem untouched_elsewhere :
    ((final (Server.undergo .plain)
      (Server.init (F := Int) 0 none (Dict.set ∅ (.bytes (bs "a")) ⟨.raw (.bytes (bs "1")), none⟩) fun _ => true)
      elsewhere).data.toStore.content 4).lookup (.bytes (bs "a")) =
      ((Server.init (F := Int) 0 none (Dict.set ∅ (.bytes (bs "a")) ⟨.raw (.bytes (bs "1")), none⟩) fun _ =>
        true).data.toStore.content 4).lookup
        (.bytes (bs "a")) := by
  have horder : InOrder Happening.time elsewhere := by simp [InOrder, elsewhere, Happening.time, Arrival.time]
  refine untouched .plain 0 none _ (fun _ => true) (.bytes (bs "a")) horder ?_ (by simp [elsewhere, Happening.time, Arrival.time])
  intro x hx
  simp only [elsewhere, List.mem_cons, List.not_mem_nil, or_false] at hx
  rcases hx with rfl | rfl | rfl | rfl
  · exact Happening.requests_of (Arrival.requests_of (Request.runs_of (c := .CONFIG) (by decide) ⟨by decide, by decide⟩))
  · exact Happening.requests_of (Arrival.requests_of (Request.runs_of (c := .SET) (by decide) ⟨by decide, by decide⟩))
  · trivial
  · exact Happening.requests_of (Arrival.requests_of (Request.runs_of (c := .DBSIZE) (by decide) ⟨by decide, by decide⟩))

end Kagni
