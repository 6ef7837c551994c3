import Mathlib.Data.List.Basic
import Dynval.Value.Text

/-!
# Quoted text can be read back

`Text.escape` writes every character as a unit that says where it ends, and no unit begins with the
mark. So a quoted text says where it ends and what it was made of, although the mark depends on the
text and may itself occur inside.
-/

namespace Dynval.Text

variable {isPlain : Char → Bool} {mark : Char}

/-- The number that a lower-case hexadecimal digit denotes. -/
def hexValue (c : Char) : Nat :=
  if c.isDigit then c.toNat - 48 else c.toNat - 87

lemma hexValue_digitChar : ∀ n < 16, hexValue (Nat.digitChar n) = n := by
  decide

/-- Read the character that the first unit of an escaped text stands for. -/
def readUnit : List Char → Option (Char × List Char)
  | '\\' :: 'x' :: a :: b :: cs => some (Char.ofNat (16 * hexValue a + hexValue b), cs)
  | '\\' :: 'n' :: cs => some ('\n', cs)
  | '\\' :: 'r' :: cs => some ('\r', cs)
  | '\\' :: 't' :: cs => some ('\t', cs)
  | '\\' :: c :: cs => some (c, cs)
  | c :: cs => some (c, cs)
  | [] => none

/-- An escaped byte reads back. -/
lemma readUnit_hexPair {c : Char} (hc : c.toNat < 256) (rest : List Char) :
    readUnit ('\\' :: 'x' :: hexPair c.toNat ++ rest) = some (c, rest) := by
  have hhigh : hexValue (Nat.digitChar (c.toNat / 16 % 16)) = c.toNat / 16 := by
    rw [hexValue_digitChar _ (Nat.mod_lt _ (by decide)), Nat.mod_eq_of_lt (by omega)]
  have hlow : hexValue (Nat.digitChar (c.toNat % 16)) = c.toNat % 16 :=
    hexValue_digitChar _ (Nat.mod_lt _ (by decide))
  simp only [hexPair, List.cons_append, List.nil_append, readUnit, hhigh, hlow, Nat.div_add_mod,
    Char.ofNat_toNat]

lemma quoteMark_eq (cs : List Char) : quoteMark cs = '\'' ∨ quoteMark cs = '"' := by
  unfold quoteMark
  split_ifs <;> simp

/-- What `escape` writes for a character is read back, whatever follows. -/
lemma readUnit_escape {c : Char} (hmark : mark = '\'' ∨ mark = '"')
    (hc : isPlain c ∨ c.toNat < 256) (rest : List Char) :
    readUnit (escape isPlain mark c ++ rest) = some (c, rest) := by
  unfold escape
  split_ifs with hback hn hr ht hm hplain
  · rw [hback]
    rfl
  · rw [hn]
    rfl
  · rw [hr]
    rfl
  · rw [ht]
    rfl
  · rcases hmark with rfl | rfl <;> rw [hm] <;> rfl
  · simp [readUnit, hback]
  · exact readUnit_hexPair (hc.resolve_left hplain) rest

/-- No unit begins with the mark. -/
lemma escape_append_ne_cons {c : Char} (hmark : mark = '\'' ∨ mark = '"')
    (rest rest' : List Char) : escape isPlain mark c ++ rest ≠ mark :: rest' := by
  have hback : mark ≠ '\\' := by
    rcases hmark with rfl | rfl <;> decide
  unfold escape
  split_ifs with _ _ _ _ hm
  on_goal 6 => exact fun h => hm (List.cons.inj h).1
  all_goals exact fun h => hback (List.cons.inj h).1.symm

/-- The closing mark of an escaped text can be found, so the text reads back. -/
lemma flatMap_escape_append_inj (hmark : mark = '\'' ∨ mark = '"') {cs ds rest rest' : List Char}
    (hcs : ∀ c ∈ cs, isPlain c ∨ c.toNat < 256) (hds : ∀ c ∈ ds, isPlain c ∨ c.toNat < 256)
    (h : cs.flatMap (escape isPlain mark) ++ mark :: rest =
      ds.flatMap (escape isPlain mark) ++ mark :: rest') : cs = ds ∧ rest = rest' := by
  induction cs generalizing ds with
  | nil =>
    cases ds with
    | nil => exact ⟨rfl, (List.cons.inj h).2⟩
    | cons d ds =>
      rw [List.flatMap_cons, List.append_assoc] at h
      exact absurd h.symm (escape_append_ne_cons hmark _ _)
  | cons c cs ih =>
    rw [List.flatMap_cons, List.append_assoc] at h
    cases ds with
    | nil => exact absurd h (escape_append_ne_cons hmark _ _)
    | cons d ds =>
      rw [List.flatMap_cons, List.append_assoc] at h
      have hread := congrArg readUnit h
      rw [readUnit_escape hmark (hcs c List.mem_cons_self),
        readUnit_escape hmark (hds d List.mem_cons_self), Option.some.injEq, Prod.mk.injEq] at hread
      obtain ⟨rfl, hrest⟩ := hread
      obtain ⟨rfl, hr⟩ := ih (fun c hc => hcs c (List.mem_cons_of_mem _ hc))
        (fun c hc => hds c (List.mem_cons_of_mem _ hc)) hrest
      exact ⟨rfl, hr⟩

/-- A quoted text is told from what follows it, and the text from its quotation. -/
theorem quote_append_inj {cs ds rest rest' : List Char}
    (hcs : ∀ c ∈ cs, isPlain c ∨ c.toNat < 256) (hds : ∀ c ∈ ds, isPlain c ∨ c.toNat < 256)
    (h : quote isPlain cs ++ rest = quote isPlain ds ++ rest') : cs = ds ∧ rest = rest' := by
  simp only [quote, List.cons_append, List.append_assoc, List.cons.injEq, List.nil_append] at h
  obtain ⟨hmark, hbody⟩ := h
  rw [← hmark] at hbody
  exact flatMap_escape_append_inj (quoteMark_eq cs) hcs hds hbody

/-! ### Texts and byte strings -/

/-- A quoted text shows what it quotes and where it ends. -/
lemma quoteText_append_inj {s t : String} {rest rest' : List Char}
    (h : quoteText s ++ rest = quoteText t ++ rest') : s = t ∧ rest = rest' := by
  have hplain : ∀ c : Char, (!isControl c) = true ∨ c.toNat < 256 := by
    intro c
    simp only [isControl, Bool.not_eq_true', Bool.or_eq_false_iff, decide_eq_false_iff_not]
    omega
  obtain ⟨hst, hrest⟩ := quote_append_inj (fun c _ => hplain c) (fun c _ => hplain c) h
  exact ⟨String.toList_inj.1 hst, hrest⟩

lemma toNat_ofNat_toNat (b : UInt8) : (Char.ofNat b.toNat).toNat = b.toNat := by
  have hvalid : b.toNat.isValidChar := Or.inl (Nat.lt_trans b.toNat_lt (by decide))
  rw [Char.ofNat, dif_pos hvalid]
  rfl

/-- A quoted byte string shows what it quotes and where it ends. -/
lemma quoteBytes_append_inj {a b : List UInt8} {rest rest' : List Char}
    (h : quoteBytes a ++ rest = quoteBytes b ++ rest') : a = b ∧ rest = rest' := by
  have hsmall : ∀ data : List UInt8, ∀ c ∈ data.map fun b => Char.ofNat b.toNat,
      isPrintable c ∨ c.toNat < 256 := by
    intro data c hc
    obtain ⟨b, -, rfl⟩ := List.mem_map.1 hc
    rw [toNat_ofNat_toNat]
    exact Or.inr b.toNat_lt
  have hinj : Function.Injective fun b : UInt8 => Char.ofNat b.toNat := by
    intro a b hab
    have hnat := congrArg Char.toNat hab
    rw [toNat_ofNat_toNat, toNat_ofNat_toNat] at hnat
    exact UInt8.toNat_inj.1 hnat
  obtain ⟨hab, hrest⟩ := quote_append_inj (hsmall a) (hsmall b) (List.cons.inj h).2
  exact ⟨List.map_injective_iff.2 hinj hab, hrest⟩

end Dynval.Text
