import Kagni.Lemmas.Wire

/-!
# One RESP2 value

The grammar of RESP2 values as a client reads them, independent of the parser and of the encoder of the program. Every encoded
reply is one value; an error line is one value exactly when no CRLF is inside it.
-/

namespace Kagni

/-- One complete RESP2 value. -/
inductive RespValue : Bytes → Prop
  | simple {line : Bytes} (h : CrlfFree line) : RespValue (43 :: line ++ SYM_CRLF)
  | error {line : Bytes} (h : CrlfFree line) : RespValue (45 :: line ++ SYM_CRLF)
  | int (n : Int) : RespValue (58 :: decimal n ++ SYM_CRLF)
  | bulk (b : Bytes) : RespValue (36 :: decimalNat b.length ++ SYM_CRLF ++ (b ++ SYM_CRLF))
  | nullBulk : RespValue (36 :: [45, 49] ++ SYM_CRLF)
  | nullArray : RespValue (42 :: [45, 49] ++ SYM_CRLF)
  | array (items : List Bytes) (h : ∀ item ∈ items, RespValue item) :
      RespValue (42 :: decimalNat items.length ++ SYM_CRLF ++ items.flatten)

/-! ## What the program encodes -/

mutual

/-- An encoded reply is one value. -/
theorem respValue_of_dumps : ∀ (reply : Reply) (lines : List Bytes), _resp_dumps reply = some lines → RespValue (joinLines lines)
  | .bytes b, lines, h => by
    cases h
    have := RespValue.bulk b
    simpa [joinLines] using this
  | .int n, lines, h => by
    cases h
    have := RespValue.int n
    simpa [joinLines] using this
  | .list items, lines, h => by
    obtain ⟨rest, hrest, rfl⟩ := Option.map_eq_some_iff.1 h
    obtain ⟨values, hlen, hjoin, hvalues⟩ := respValues_of_dumps items rest hrest
    have := RespValue.array values hvalues
    rw [hlen, ← hjoin] at this
    simpa [joinLines] using this
  | .response .OK, lines, h => by
    cases h
    exact .simple (show CrlfFree [79, 75] by decide)
  | .response .QUEUED, lines, h => by
    cases h
    exact .simple (show CrlfFree [81, 85, 69, 85, 69, 68] by decide)
  | .response .PONG, lines, h => by
    cases h
    exact .simple (show CrlfFree [80, 79, 78, 71] by decide)
  | .response .NIL, lines, h => by
    cases h
    exact .nullBulk
  | .response .NIL_ARRAY, lines, h => by
    cases h
    exact .nullArray
  | .simple name, lines, h => by
    cases h
    have hname : CrlfFree name.text := by cases name <;> decide
    have := RespValue.simple hname
    simpa [joinLines] using this
  | .none, lines, h => by cases h

/-- The items of an encoded list are values. -/
theorem respValues_of_dumps : ∀ (items : List Reply) (lines : List Bytes), _resp_dumps_items items = some lines →
    ∃ values : List Bytes, values.length = items.length ∧ joinLines lines = values.flatten ∧ ∀ v ∈ values, RespValue v
  | [], lines, h => by
    cases h
    exact ⟨[], rfl, rfl, nofun⟩
  | item :: items, lines, h => by
    rw [_resp_dumps_items] at h
    split at h
    · rename_i a b ha hb
      cases h
      obtain ⟨values, hlen, hjoin, hvalues⟩ := respValues_of_dumps items b hb
      refine ⟨joinLines a :: values, by simp [hlen], ?_, ?_⟩
      · rw [List.flatten_cons, ← hjoin, joinLines, List.flatMap_append]
        rfl
      · intro v hv
        rcases List.mem_cons.1 hv with rfl | hv
        · exact respValue_of_dumps item a ha
        · exact hvalues v hv
    · cases h

end

theorem respValue_of_protocolBuilder {reply : Reply} {frame : Bytes} (h : protocolBuilder reply = some frame) :
    RespValue frame := by
  obtain ⟨lines, hl, rfl⟩ := Option.map_eq_some_iff.1 h
  exact respValue_of_dumps reply lines hl

theorem protocolBuilder_eq_none_iff (reply : Reply) : protocolBuilder reply = none ↔ _resp_dumps reply = none :=
  Option.map_eq_none_iff

/-- A list can be encoded unless one of its items cannot. -/
theorem protocolBuilder_list_eq_none_iff (items : List Reply) :
    protocolBuilder (.list items) = none ↔ ∃ item ∈ items, protocolBuilder item = none := by
  simp only [protocolBuilder_eq_none_iff, _resp_dumps, Option.map_eq_none_iff]
  induction items with
  | nil => simp [_resp_dumps_items]
  | cons item items ih =>
    rw [_resp_dumps_items, List.exists_mem_cons_iff, ← ih]
    cases _resp_dumps item <;> cases _resp_dumps_items items <;> simp

@[simp] theorem protocolBuilder_bytes_ne_none (b : Bytes) : protocolBuilder (.bytes b) ≠ none := nofun

@[simp] theorem protocolBuilder_int_ne_none (n : Int) : protocolBuilder (.int n) ≠ none := nofun

/-- An error line is one value exactly when there is no CRLF inside it. -/
theorem respValue_error_iff (line : Bytes) : RespValue (45 :: line ++ SYM_CRLF) ↔ CrlfFree line := by
  refine ⟨fun h => ?_, .error⟩
  generalize he : 45 :: line ++ SYM_CRLF = b at h
  cases h with
  | error hl =>
    simp only [List.cons_append, List.cons.injEq, true_and] at he
    rwa [List.append_cancel_right he]
  | _ => simp at he

/-- What `protocolBuilder` writes after the minus sign of an error. -/
def Error.text (e : Error) : Bytes := e.class_ ++ (if e.message = [] then [] else 32 :: e.message)

theorem Error.frame_eq (e : Error) : e.frame = 45 :: e.text ++ SYM_CRLF := by
  simp [Error.frame, joinLines, Error.line, Error.text]

theorem respValue_frame_iff (e : Error) : RespValue e.frame ↔ CrlfFree e.text := by
  rw [Error.frame_eq, respValue_error_iff]

/-! ## CRLF inside a text -/

theorem crlfFree_cons (c : UInt8) (b : Bytes) : CrlfFree (c :: b) ↔ ¬(c = 13 ∧ b.head? = some 10) ∧ CrlfFree b := by
  unfold CrlfFree
  cases b with
  | nil => simp [findCrlf]
  | cons d b =>
    rw [findCrlf]
    split
    · rename_i h
      simp [h.1, h.2]
    · rename_i h
      simp only [Option.map_eq_none_iff, List.head?_cons, Option.some.injEq]
      exact ⟨fun hb => ⟨h, hb⟩, fun hb => hb.2⟩

/-- Two texts side by side, the second of which does not start with LF. -/
theorem crlfFree_append {a b : Bytes} (h : b.head? ≠ some 10) : CrlfFree (a ++ b) ↔ CrlfFree a ∧ CrlfFree b := by
  induction a with
  | nil => simp [CrlfFree, findCrlf]
  | cons c a ih =>
    rw [List.cons_append, crlfFree_cons, crlfFree_cons, ih, and_assoc]
    refine and_congr_left fun _ => not_congr (and_congr_right fun _ => ?_)
    cases a with
    | nil => simp [h]
    | cons d a => rfl

/-- A byte map that keeps CR and LF apart from the rest keeps CRLFs. -/
theorem crlfFree_map {f : UInt8 → UInt8} (h13 : ∀ c, f c = 13 ↔ c = 13) (h10 : ∀ c, f c = 10 ↔ c = 10) (b : Bytes) :
    CrlfFree (b.map f) ↔ CrlfFree b := by
  induction b with
  | nil => rfl
  | cons c b ih =>
    rw [List.map_cons, crlfFree_cons, crlfFree_cons, ih, h13]
    refine and_congr_left fun _ => not_congr (and_congr_right fun _ => ?_)
    cases b with
    | nil => rfl
    | cons d b => simp [h10]

/-- What holds of the 256 bytes holds of every byte. -/
theorem forall_byte {p : UInt8 → Prop} (h : ∀ n : Fin 256, p (.ofFin n)) (c : UInt8) : p c := h c.toFin

theorem crlfFree_upper (b : Bytes) : CrlfFree (upper b) ↔ CrlfFree b :=
  crlfFree_map (forall_byte (by decide +kernel)) (forall_byte (by decide +kernel)) b

theorem crlfFree_lower (b : Bytes) : CrlfFree (lower b) ↔ CrlfFree b :=
  crlfFree_map (forall_byte (by decide +kernel)) (forall_byte (by decide +kernel)) b

theorem crlfFree_asciiOrQuestion (b : Bytes) : CrlfFree (asciiOrQuestion b) ↔ CrlfFree b :=
  crlfFree_map (forall_byte (by decide +kernel)) (forall_byte (by decide +kernel)) b

theorem head_decodeAscii (b : Bytes) : (decodeAscii b).head? = some 10 ↔ b.head? = some 10 := by
  cases b with
  | nil => rfl
  | cons c b =>
    simp only [decodeAscii, List.flatMap_cons]
    split
    · rfl
    · rename_i h
      simp only [List.cons_append, List.head?_cons, Option.some.injEq]
      exact ⟨fun e => absurd e (by decide), fun e => absurd (e ▸ (by decide : (10 : UInt8) < 128)) h⟩

theorem crlfFree_decodeAscii (b : Bytes) : CrlfFree (decodeAscii b) ↔ CrlfFree b := by
  induction b with
  | nil => rfl
  | cons c b ih =>
    rw [crlfFree_cons, decodeAscii, List.flatMap_cons, ← decodeAscii]
    split
    · rw [List.singleton_append, crlfFree_cons, head_decodeAscii, ih]
    · rename_i h
      have hc : c ≠ 13 := fun e => absurd (e ▸ (by decide : (13 : UInt8) < 128)) h
      simp [crlfFree_cons, ih, hc]

/-- Bytes none of which is a CR. -/
def NoCr (b : Bytes) : Prop := (13 : UInt8) ∉ b

instance (b : Bytes) : Decidable (NoCr b) := inferInstanceAs (Decidable (_ ∉ _))

theorem NoCr.crlfFree {b : Bytes} (h : NoCr b) : CrlfFree b := crlfFree_of_forall fun _ hc e => h (e ▸ hc)

theorem noCr_append {a b : Bytes} : NoCr (a ++ b) ↔ NoCr a ∧ NoCr b := by
  simp [NoCr]

/-- A text without CR before another one. -/
theorem crlfFree_noCr_append {a b : Bytes} (h : NoCr a) : CrlfFree (a ++ b) ↔ CrlfFree b := by
  induction a with
  | nil => rfl
  | cons c a ih =>
    have hc : c ≠ 13 := fun e => h (by simp [e])
    rw [List.cons_append, crlfFree_cons, ih fun hm => h (by simp [hm])]
    simp [hc]

/-- A text quoted between two others. -/
theorem crlfFree_quote {a b c : Bytes} (ha : NoCr a) (hc : NoCr c) (hc' : c.head? ≠ some 10) :
    CrlfFree (a ++ b ++ c) ↔ CrlfFree b := by
  rw [crlfFree_append hc', crlfFree_noCr_append ha]
  exact and_iff_left hc.crlfFree

theorem Cmd.noCr_lower (c : Cmd) : NoCr c.lower := by
  cases c <;> decide

/-- The errors of the keyspace commands are one line each. -/
theorem Errors.crlfFree (e : Errors) : CrlfFree e.error.text := by
  have hquote : ∀ (a c : Bytes) (command : Cmd), NoCr a → NoCr c → NoCr (bs "ERR" ++
      (if a ++ command.lower ++ c = [] then [] else 32 :: (a ++ command.lower ++ c))) := by
    intro a c command ha hc
    refine noCr_append.2 ⟨by decide, ?_⟩
    split
    · exact List.not_mem_nil
    · intro hm
      rcases List.mem_cons.1 hm with hm | hm
      · cases hm
      · exact (noCr_append.2 ⟨noCr_append.2 ⟨ha, command.noCr_lower⟩, hc⟩) hm
  cases e with
  | arity command => exact (hquote _ _ command (by decide) (by decide)).crlfFree
  | no_keys command => exact (hquote _ _ command (by decide) (by decide)).crlfFree
  | expireTime command => exact (hquote _ _ command (by decide) (by decide)).crlfFree
  | _ => decide +kernel

end Kagni
