import Mathlib.Data.List.DropRight
import Dynval.Operation.Apply
import Dynval.Platform
import Dynval.Proofs.Binary64.Text
import Dynval.Proofs.Datum.Text
import Dynval.Proofs.Text.Quoted
import Dynval.Proofs.Text.Scalars

/-!
# What printing answers

The operation `print` answers the line that its arguments print as, without the line ends behind it.
These are the end of the line itself and every line end with which the last argument ends, so the
answer is the line only if the last argument is no text that ends in one.
-/

namespace Dynval

/-! ### Writing -/

/-- A sink that keeps the bytes of what is written. -/
def Sink.buffer : Sink (StateM (List UInt8)) where
  write text := do
    modify (· ++ Text.utf8 text)
    return .ok ()
  flush := return .ok ()

/-- Into a buffer, printing writes one line and cannot fail. -/
lemma printTo_buffer [FloatPrinter] (s : Store) (values : List Value) :
    (printTo Sink.buffer s values).run [] = (.ok (), Text.utf8 (lineOf s values ++ "\n")) := rfl

/-! ### Line ends -/

namespace Text

/-- Whether characters end in a line end. -/
def EndsLine (cs : List Char) : Prop :=
  cs.getLast? = some '\n'

lemma not_endsLine_of_isWordChar {cs : List Char} (h : ∀ c ∈ cs, isWordChar c) : ¬ EndsLine cs := by
  intro hlast
  exact absurd (h _ (List.mem_of_getLast? hlast)) (by decide)

lemma not_endsLine_concat {cs : List Char} {c : Char} (hc : c ≠ '\n') : ¬ EndsLine (cs ++ [c]) := by
  simpa [EndsLine] using hc

/-- A quoted text ends in its mark. -/
lemma not_endsLine_quote (before : List Char) (isPlain : Char → Bool) (cs : List Char) :
    ¬ EndsLine (before ++ quote isPlain cs) := by
  rw [quote, ← List.append_assoc]
  apply not_endsLine_concat
  rcases quoteMark_eq cs with h | h <;> rw [h] <;> decide

/-- Only the last of several texts decides how they end with blanks between them. -/
lemma endsLine_intercalate_iff {texts : List (List Char)} :
    EndsLine ([' '].intercalate texts) ↔ ∃ cs ∈ texts.getLast?, EndsLine cs := by
  induction texts with
  | nil => simp [EndsLine]
  | cons cs texts ih =>
    cases texts with
    | nil => simp
    | cons ds texts =>
      rw [List.intercalate_cons_cons, List.getLast?_cons_cons, ← ih, EndsLine, EndsLine,
        List.getLast?_append, List.getLast?_append]
      cases ([' '].intercalate (ds :: texts)).getLast? <;> simp

end Text

/-- The text that tells a value from all others never ends in a line end. -/
lemma Datum.not_endsLine_text [FloatPrinter] (d : Datum) : ¬ Text.EndsLine d.text := by
  cases d with
  | nil => simp [Datum.text, Text.EndsLine]
  | bool b => cases b <;> simp [Datum.text, Text.EndsLine]
  | int i =>
    rw [Datum.text]
    exact Text.not_endsLine_of_isWordChar (isWordChar_intChars _)
  | float x =>
    rw [Datum.text]
    exact Text.not_endsLine_of_isWordChar (Binary64.isWordChar_textChars x)
  | str t =>
    rw [Datum.text]
    exact Text.not_endsLine_quote [] _ _
  | bytes data =>
    rw [Datum.text]
    exact Text.not_endsLine_quote ['b'] _ _
  | byteArray data =>
    rw [Datum.text]
    exact Text.not_endsLine_concat (by decide)
  | list items =>
    rw [Datum.text]
    exact Text.not_endsLine_concat (by decide)
  | map entries =>
    rw [Datum.text]
    exact Text.not_endsLine_concat (by decide)
  | cutList => simp [Datum.text, Text.EndsLine]
  | cutMap => simp [Datum.text, Text.EndsLine]

/-- Only a text can be displayed with a line end behind it. -/
lemma Value.endsLine_display_iff [FloatPrinter] {s : Store} {v : Value} :
    Text.EndsLine (v.display s).toList ↔ ∃ t, v = .str t ∧ Text.EndsLine t.toList := by
  by_cases hv : v.kind = .str
  · cases v with
    | str t => simp [display]
    | _ => cases hv
  · have hnot : ∀ t, v ≠ .str t := by
      rintro t rfl
      exact hv rfl
    rw [display_eq_repr s hv, repr_eq, String.toList_ofList]
    simpa [hnot, chars] using Datum.not_endsLine_text _

/-- A line ends in a line end of its own exactly when its last value is such a text. -/
lemma endsLine_lineOf_iff [FloatPrinter] {s : Store} {values : List Value} :
    Text.EndsLine (lineOf s values).toList ↔
      ∃ t, values.getLast? = some (.str t) ∧ Text.EndsLine t.toList := by
  rw [lineOf, String.toList_intercalate, List.map_map]
  change Text.EndsLine ([' '].intercalate _) ↔ _
  rw [Text.endsLine_intercalate_iff, List.getLast?_map]
  cases values.getLast? with
  | none => simp
  | some v => simp [Value.endsLine_display_iff]

namespace Operation

/-- All line ends behind a text are dropped. -/
lemma toList_dropLineEnds (t : String) :
    (dropLineEnds t).toList = t.toList.rdropWhile (· == '\n') :=
  String.toList_ofList

/-- One more line end makes no difference. -/
lemma dropLineEnds_append (t : String) : dropLineEnds (t ++ "\n") = dropLineEnds t := by
  rw [← String.toList_inj, toList_dropLineEnds, toList_dropLineEnds, String.toList_append]
  exact List.rdropWhile_concat_pos _ _ _ rfl

/-- Nothing is dropped from a text without a line end behind it. -/
lemma dropLineEnds_eq_self_iff {t : String} :
    dropLineEnds t = t ↔ ¬ Text.EndsLine t.toList := by
  rw [← String.toList_inj, toList_dropLineEnds, List.rdropWhile_eq_self_iff, Text.EndsLine]
  rcases List.eq_nil_or_concat t.toList with h | ⟨cs, c, h⟩ <;> simp [h]

lemma not_endsLine_dropLineEnds (t : String) : ¬ Text.EndsLine (dropLineEnds t).toList := by
  rw [← dropLineEnds_eq_self_iff, ← String.toList_inj]
  simp only [toList_dropLineEnds, List.rdropWhile_idempotent]

/-- Nothing but line ends is dropped. -/
lemma exists_eq_dropLineEnds_append (t : String) :
    ∃ n, t = dropLineEnds t ++ String.ofList (List.replicate n '\n') := by
  have hends := List.eq_replicate_of_mem (l := t.toList.rtakeWhile (· == '\n')) (a := '\n')
    fun c hc => by simpa using List.mem_rtakeWhile_imp hc
  refine ⟨(t.toList.rtakeWhile (· == '\n')).length, ?_⟩
  rw [← hends, ← String.toList_inj, String.toList_append, toList_dropLineEnds,
    String.toList_ofList, List.rdropWhile_append_rtakeWhile]

/-- Printing to a buffer writes the line of the arguments and its end. The operation answers that
text without all line ends behind it, so it answers the line just when the last argument is no text
that ends in a line end. -/
theorem print_drops_line_ends [Platform] (args : List Value) (policy : Policy) (s : Store) :
    ∃ written answer,
      (printTo Sink.buffer s args).run [] = (.ok (), written) ∧
      Text.decode written = lineOf s args ++ "\n" ∧
      print.apply args policy s = ⟨.ok (.str answer), s, []⟩ ∧
      (∃ n, lineOf s args = answer ++ String.ofList (List.replicate n '\n')) ∧
      ¬ Text.EndsLine answer.toList ∧
      (answer = lineOf s args ↔
        ∀ t, args.getLast? = some (.str t) → ¬ Text.EndsLine t.toList) := by
  refine ⟨_, dropLineEnds (lineOf s args), printTo_buffer s args, Text.decode_utf8 _, ?_,
    exists_eq_dropLineEnds_append _, not_endsLine_dropLineEnds _, ?_⟩
  · rw [← dropLineEnds_append]
    rfl
  · rw [dropLineEnds_eq_self_iff, endsLine_lineOf_iff]
    push Not
    rfl

section

attribute [local instance] Platform.standard

/-- A line end with which an argument ends is lost with that of the line. -/
theorem print_loses_line_end_of_argument :
    let args : List Value := [.str "a\n"]
    lineOf .empty args = "a\n" ∧
      (print.apply args .lenient .empty).result = .ok (.str "a") ∧
      (print.apply args .lenient .empty).result ≠ .ok (.str (lineOf .empty args)) := by
  intro args
  have hline : lineOf .empty args = "a\n" := by cbv
  have hresult : (print.apply args .lenient .empty).result = .ok (.str "a") := by cbv
  refine ⟨hline, hresult, ?_⟩
  rw [hline, hresult]
  simp

end

end Operation

end Dynval
