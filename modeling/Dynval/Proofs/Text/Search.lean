import Dynval.Proofs.Text.Scalars
import Dynval.Text.Basic

/-!
# Searching a text by its bytes

A text stands in another one exactly when its bytes stand in the bytes of the other. A first byte of
a character is never a later byte of one, so the bytes of a text can only be found where a character
starts (`Text.infix_of_infix_bytes`), and from there on the bytes determine the characters.
-/

namespace Dynval

/-- A list is found in another one exactly when it stands there without gaps. -/
lemma occursIn_iff {α : Type} [BEq α] [LawfulBEq α] {needle xs : List α} :
    occursIn needle xs ↔ needle <:+: xs := by
  induction xs with
  | nil => simp [occursIn]
  | cons x xs ih =>
    rw [occursIn, Bool.or_eq_true, ih, List.isPrefixOf_iff_prefix, List.infix_cons_iff]

/-- A list is one of the parts of its length exactly when it stands there without gaps. -/
lemma mem_windows_length_iff {α : Type} {needle xs : List α} (hneedle : 0 < needle.length) :
    needle ∈ windows needle.length hneedle xs ↔ needle <:+: xs := by
  simp only [windows, List.mem_map, List.mem_range]
  constructor
  · rintro ⟨start, -, hpart⟩
    rw [← hpart]
    exact (List.take_prefix _ _).isInfix.trans (List.drop_suffix start xs).isInfix
  · rintro ⟨p, q, rfl⟩
    refine ⟨p.length, ?_, ?_⟩
    · simp only [List.length_append]
      omega
    · rw [List.append_assoc, List.drop_left, List.take_left]

namespace Text

variable {c d : Char} {cs ns : List Char}

/-- Bytes that start with a character start with no other one. -/
lemma utf8EncodeChar_append_inj {xs ys : List UInt8}
    (h : String.utf8EncodeChar c ++ xs = String.utf8EncodeChar d ++ ys) : c = d ∧ xs = ys := by
  have hdecode := congrArg (fun bytes => bytes.toByteArray.utf8DecodeChar? 0) h
  simp only [List.toByteArray_append, ByteArray.utf8DecodeChar?_utf8EncodeChar_append] at hdecode
  obtain rfl := Option.some.inj hdecode
  exact ⟨rfl, List.append_cancel_left h⟩

/-- Of the bytes of a character only the first one can start a character. -/
lemma isUTF8FirstByte_iff {b : UInt8} {before after : List UInt8}
    (h : String.utf8EncodeChar c = before ++ b :: after) : b.IsUTF8FirstByte ↔ before = [] := by
  have hfirst := @UInt8.isUTF8FirstByte_getElem_utf8EncodeChar c before.length (by simp [h])
  simpa [h] using hfirst

lemma prefix_of_prefix_bytes
    (h : ns.flatMap String.utf8EncodeChar <+: cs.flatMap String.utf8EncodeChar) : ns <+: cs := by
  induction ns generalizing cs with
  | nil => exact List.nil_prefix
  | cons n ns ih =>
    obtain ⟨rest, hrest⟩ := h
    cases cs with
    | nil => simp [String.utf8EncodeChar_ne_nil] at hrest
    | cons c cs =>
      rw [List.flatMap_cons, List.flatMap_cons, List.append_assoc] at hrest
      obtain ⟨rfl, htail⟩ := utf8EncodeChar_append_inj hrest
      exact (List.prefix_cons_inj n).2 (ih ⟨rest, htail⟩)

/-- Bytes of characters that stand in a text begin at a character, so the characters stand there. -/
lemma infix_of_infix_bytes
    (h : ns.flatMap String.utf8EncodeChar <:+: cs.flatMap String.utf8EncodeChar) : ns <:+: cs := by
  cases ns with
  | nil => exact List.nil_infix
  | cons n ns =>
    induction cs with
    | nil => simp [String.utf8EncodeChar_ne_nil] at h
    | cons c cs ih =>
      obtain ⟨p, q, hpq⟩ := h
      by_cases hp : p = []
      · subst hp
        exact (prefix_of_prefix_bytes ⟨q, hpq⟩).isInfix
      -- the bytes found start behind those of `c`, since none of these after the first starts `n`
      · have hsplit : p ++ ((n :: ns).flatMap String.utf8EncodeChar ++ q) =
            String.utf8EncodeChar c ++ cs.flatMap String.utf8EncodeChar := by
          rw [← List.append_assoc, hpq, List.flatMap_cons]
        obtain ⟨inner, hc, hinner⟩ | ⟨p', rfl, hcs⟩ := List.append_eq_append_iff.1 hsplit
        · cases inner with
          | nil => exact List.infix_cons (ih ⟨[], q, hinner⟩)
          | cons b inner =>
            obtain ⟨first, later, hn⟩ :=
              List.exists_cons_of_ne_nil (String.utf8EncodeChar_ne_nil (c := n))
            rw [List.flatMap_cons, hn] at hinner
            obtain rfl : first = b := (List.cons.inj hinner).1
            have hstart : first.IsUTF8FirstByte := (isUTF8FirstByte_iff hn).2 rfl
            exact absurd ((isUTF8FirstByte_iff hc).1 hstart) hp
        · refine List.infix_cons (ih ⟨p', q, ?_⟩)
          rw [hcs, List.append_assoc]

/-- Searching by bytes finds the texts whose characters stand in the text. -/
lemma contains_iff {s needle : String} : contains s needle ↔ needle.toList <:+: s.toList := by
  rw [contains, occursIn_iff, utf8_eq, utf8_eq]
  constructor
  · exact infix_of_infix_bytes
  · rintro ⟨p, q, hpq⟩
    refine ⟨p.flatMap String.utf8EncodeChar, q.flatMap String.utf8EncodeChar, ?_⟩
    rw [← List.flatMap_append, ← List.flatMap_append, hpq]

end Text

end Dynval
