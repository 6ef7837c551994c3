import Dynval.Proofs.Binary64.Text
import Dynval.Proofs.Datum.Text
import Dynval.Proofs.Platform
import Dynval.Proofs.Store.Identity
import Dynval.Proofs.Text.Quoted

/-!
# Values with one text

Two acyclic values have the same text exactly when they are identical in structure. One direction
reads the two texts side by side, by induction along the paths of the first value; the other says
that a text is made of nothing but labels.

The text of an acyclic value, followed by something that cannot go on with a word, says where it
ends and what the value is, but for the bits of a NaN. The kind is read off the first characters
(`Text.kindOf`); within a kind, words, quoted texts and brackets are read one by one. The printer of
floats has to tell them apart.
-/

namespace Dynval

open Text

/-! ### Brackets -/

namespace Text

variable {α β : Type} {f : α → List Char} {g : β → List Char} {R : α → β → Prop}
  {as : List α} {bs : List β} {left right : Char} {rest rest' : List Char}

/-- A word ends at a comma and at a closing bracket. -/
lemma endsWord_items (hright : isWordChar right = false) :
    EndsWord (as.flatMap (fun a => ',' :: ' ' :: f a) ++ right :: rest) := by
  cases as with
  | nil =>
    rintro c ⟨⟩
    exact hright
  | cons a as =>
    rintro c ⟨⟩
    decide

/-- What stands after the first item of a bracket is told apart when the items are. -/
lemma items_append_inj (hright : isWordChar right = false) (hcomma : right ≠ ',')
    (hread : ∀ a ∈ as, ∀ b ∈ bs, ∀ rest rest', EndsWord rest → EndsWord rest' →
      f a ++ rest = g b ++ rest' → R a b ∧ rest = rest')
    (h : as.flatMap (fun a => ',' :: ' ' :: f a) ++ right :: rest =
      bs.flatMap (fun b => ',' :: ' ' :: g b) ++ right :: rest') :
    List.Forall₂ R as bs ∧ rest = rest' := by
  induction as generalizing bs with
  | nil =>
    cases bs with
    | nil => exact ⟨.nil, (List.cons.inj h).2⟩
    | cons b bs => exact absurd (List.cons.inj h).1 hcomma
  | cons a as ih =>
    cases bs with
    | nil => exact absurd (List.cons.inj h).1.symm hcomma
    | cons b bs =>
      simp only [List.flatMap_cons, List.cons_append, List.append_assoc, List.cons.injEq,
        true_and] at h
      obtain ⟨hab, htail⟩ := hread a List.mem_cons_self b List.mem_cons_self _ _
        (endsWord_items hright) (endsWord_items hright) h
      obtain ⟨habs, hrest⟩ := ih (fun a ha b hb =>
        hread a (List.mem_cons_of_mem _ ha) b (List.mem_cons_of_mem _ hb)) htail
      exact ⟨.cons hab habs, hrest⟩

/-- A bracket is told from what follows it, and its items from each other, when no item begins
with the right bracket. -/
lemma bracket_append_inj (hright : isWordChar right = false) (hcomma : right ≠ ',')
    (hf : ∀ a ∈ as, ∀ rest rest', EndsWord rest → f a ++ rest ≠ right :: rest')
    (hg : ∀ b ∈ bs, ∀ rest rest', EndsWord rest → g b ++ rest ≠ right :: rest')
    (hread : ∀ a ∈ as, ∀ b ∈ bs, ∀ rest rest', EndsWord rest → EndsWord rest' →
      f a ++ rest = g b ++ rest' → R a b ∧ rest = rest')
    (h : bracket left right (as.map f) ++ rest = bracket left right (bs.map g) ++ rest') :
    List.Forall₂ R as bs ∧ rest = rest' := by
  simp only [bracket, List.cons_append, List.append_assoc, List.cons.injEq, true_and,
    List.nil_append] at h
  cases as with
  | nil =>
    cases bs with
    | nil => exact ⟨.nil, (List.cons.inj h).2⟩
    | cons b bs =>
      rw [List.map_cons, intercalate_cons, List.flatMap_map, List.append_assoc] at h
      exact absurd h.symm (hg b List.mem_cons_self _ _ (endsWord_items hright))
  | cons a as =>
    rw [List.map_cons, intercalate_cons, List.flatMap_map, List.append_assoc] at h
    cases bs with
    | nil => exact absurd h (hf a List.mem_cons_self _ _ (endsWord_items hright))
    | cons b bs =>
      rw [List.map_cons, intercalate_cons, List.flatMap_map, List.append_assoc] at h
      obtain ⟨hab, htail⟩ := hread a List.mem_cons_self b List.mem_cons_self _ _
        (endsWord_items hright) (endsWord_items hright) h
      obtain ⟨habs, hrest⟩ := items_append_inj hright hcomma (fun a ha b hb =>
        hread a (List.mem_cons_of_mem _ ha) b (List.mem_cons_of_mem _ hb)) htail
      exact ⟨.cons hab habs, hrest⟩

/-! ### Kinds -/

/-- Whether a character can stand in the text of an integer. -/
def isIntChar (c : Char) : Bool :=
  c.isDigit || c == '-'

/-- The kind of the value that a text begins with. -/
def kindOf : List Char → Option Kind
  | '[' :: _ => some .list
  | '{' :: _ => some .map
  | '\'' :: _ | '"' :: _ => some .str
  | 'N' :: _ => some .nil
  | 'T' :: _ | 'F' :: _ => some .bool
  | 'b' :: 'y' :: _ => some .byteArray
  | 'b' :: _ => some .bytes
  | cs =>
    let word := cs.takeWhile isWordChar
    if word = [] then none else if word.all isIntChar then some .int else some .float

/-- Words that begin neither with a capital letter nor with a `b` are numbers. -/
lemma kindOf_number {c : Char} {cs rest : List Char}
    (hc : c = 'n' ∨ c = 'i' ∨ c = '-' ∨ c.isDigit) (hword : ∀ d ∈ c :: cs, isWordChar d)
    (hrest : EndsWord rest) :
    kindOf (c :: cs ++ rest) = if (c :: cs).all isIntChar then some .int else some .float := by
  have htake := takeWhile_append_of_head hword hrest
  rw [List.cons_append] at htake ⊢
  unfold kindOf
  split
  case h_10 => simp [htake]
  all_goals simp_all

end Text

/-! ### The texts of acyclic values -/

namespace Value

variable [FloatPrinter]

section

attribute [local simp] chars view viewBelow Datum.text

@[simp] lemma chars_nil (s : Store) : Value.nil.chars s = "None".toList := by
  simp

@[simp] lemma chars_bool (s : Store) (b : Bool) :
    (Value.bool b).chars s = if b then "True".toList else "False".toList := by
  cases b <;> simp

@[simp] lemma chars_int (s : Store) (i : Int64) : (Value.int i).chars s = intChars i.toInt := by
  simp

@[simp] lemma chars_float (s : Store) (x : Binary64) : (Value.float x).chars s = x.textChars := by
  simp

@[simp] lemma chars_str (s : Store) (u : String) : (Value.str u).chars s = quoteText u := by
  simp

@[simp] lemma chars_bytes (s : Store) (data : List UInt8) :
    (Value.bytes data).chars s = quoteBytes data := by
  simp

@[simp] lemma chars_byteArray (s : Store) (r : Ref) :
    (Value.byteArray r).chars s = "bytearray(".toList ++ quoteBytes (s.data r) ++ [')'] := by
  simp

end

/-- A list without cycles is written as its elements between brackets. -/
lemma chars_list {s : Store} {r : Ref} (h : s.Acyclic (.list r)) :
    (Value.list r).chars s = bracket '[' ']' ((s.items r).map (chars s)) := by
  rw [chars, view_list h, Datum.text, List.map_map]
  rfl

def entryChars (s : Store) (e : Key × Value) : List Char :=
  e.1.text ++ ':' :: ' ' :: e.2.chars s

/-- A map without cycles is written as its entries between braces. -/
lemma chars_map {s : Store} {r : Ref} (h : s.Acyclic (.map r)) :
    (Value.map r).chars s = bracket '{' '}' ((s.entries r).map (entryChars s)) := by
  rw [chars, view_map h, Datum.text, List.map_map]
  rfl

/-- The text of a key is the text of the key as a value. -/
lemma chars_toValue (s : Store) (k : Key) : k.toValue.chars s = k.text := by
  cases k <;> simp [Key.toValue, Key.text]

/-- The text of an acyclic value shows its kind. -/
lemma kindOf_chars (hprinter : FloatPrinter.TellsApart) {s : Store} {v : Value} {rest : List Char}
    (hv : s.Acyclic v) (hrest : EndsWord rest) : kindOf (v.chars s ++ rest) = some v.kind := by
  cases v with
  | nil =>
    rw [chars_nil]
    rfl
  | bool b =>
    rw [chars_bool]
    cases b <;> rfl
  | int i =>
    obtain ⟨c, cs, hcs⟩ := List.exists_cons_of_ne_nil (intChars_ne_nil i.toInt)
    have hchars : ∀ d ∈ c :: cs, d = '-' ∨ d.isDigit := fun d hd => mem_intChars (hcs ▸ hd)
    have hall : (c :: cs).all isIntChar := List.all_eq_true.2 fun d hd => by
      simpa [isIntChar, or_comm] using hchars d hd
    rw [chars_int, hcs, kindOf_number (Or.inr (Or.inr (hchars c List.mem_cons_self)))
      (hcs ▸ isWordChar_intChars i.toInt) hrest, if_pos hall]
    rfl
  | float x =>
    obtain ⟨c, cs, hcs, hc⟩ := x.exists_textChars_eq_cons hprinter
    obtain ⟨d, hd, hdigit, hminus⟩ := x.exists_mem_textChars
    have hall : ¬ (c :: cs).all isIntChar := fun h => by
      simpa [isIntChar, hdigit, hminus] using List.all_eq_true.1 h d (hcs ▸ hd)
    rw [chars_float, hcs, kindOf_number hc (hcs ▸ x.isWordChar_textChars) hrest, if_neg hall]
    rfl
  | str u =>
    rw [chars_str, quoteText, quote]
    rcases quoteMark_eq u.toList with hmark | hmark <;> rw [hmark] <;> rfl
  | bytes data =>
    rw [chars_bytes, quoteBytes, quote]
    rcases quoteMark_eq (data.map fun b => Char.ofNat b.toNat) with hmark | hmark <;>
      rw [hmark] <;> rfl
  | byteArray r =>
    rw [chars_byteArray]
    rfl
  | list r =>
    rw [chars_list hv]
    rfl
  | map r =>
    rw [chars_map hv]
    rfl

end Value

lemma Key.node?_toValue (k : Key) : k.toValue.node? = none := by
  cases k <;> rfl

/-! ### Texts are made of labels -/

section

variable [FloatPrinter]

lemma Key.text_mergeNaN (k : Key) : k.mergeNaN.text = k.text := by
  cases k with
  | float x => exact x.textChars_mergeNaN
  | _ => rfl

/-- The text of the values with a label that have nothing below them. -/
def Label.chars : Label → List Char
  | .scalar v => v.chars .empty
  | .byteArray data => (Datum.byteArray data).text
  | .list _ | .map _ => []

/-- A text does not tell NaNs apart. -/
lemma Label.chars_mergeNaN (l : Label) : l.mergeNaN.chars = l.chars := by
  cases l with
  | scalar v =>
    cases v with
    | float x =>
      rw [mergeNaN, chars, chars, Value.chars_float, Value.chars_float, x.textChars_mergeNaN]
    | _ => rfl
  | _ => rfl

namespace Value

variable {s t : Store} {a b : Value} {rest rest' : List Char}

/-- The text of a value with nothing below it depends on its label alone. -/
lemma chars_eq_chars_label (h : a.node? = none) : a.chars s = (s.label a).chars := by
  cases a with
  | list r => cases h
  | map r => cases h
  | _ => simp only [Store.label, Label.chars, chars, view, viewBelow]

/-- Entries with one key and one text of their values have one text. -/
lemma entryChars_eq {e f : Key × Value} (hkey : e.1.mergeNaN = f.1.mergeNaN)
    (hvalue : e.2.chars s = f.2.chars t) : entryChars s e = entryChars t f := by
  rw [entryChars, entryChars, hvalue, ← Key.text_mergeNaN, hkey, Key.text_mergeNaN]

/-- Values identical in structure have the same text. -/
lemma chars_eq_of_identical (ha : s.Acyclic a) :
    ∀ b, t.Acyclic b → s.Identical t a b → a.chars s = b.chars t := by
  refine ha.induction ?_
  intro a ha ih b hb hab
  have hlabel := (Store.identical_iff.1 hab).1
  cases hnode : a.node? with
  | none =>
    rw [chars_eq_chars_label hnode,
      chars_eq_chars_label (Store.node?_eq_none_of_label hnode hlabel), ← Label.chars_mergeNaN,
      hlabel, Label.chars_mergeNaN]
  | some r =>
    cases a with
    | list r =>
      cases b with
      | list q =>
        rw [chars_list ha, chars_list hb, map_eq_map_of_forall₂ (Store.identical_list_iff.1 hab)]
        exact fun v hv w hw => ih v hv w (hb.child hw)
      | _ => cases hlabel
    | map r =>
      cases b with
      | map q =>
        rw [chars_map ha, chars_map hb, map_eq_map_of_forall₂ (Store.identical_map_iff.1 hab)]
        intro e he f hf hef
        exact entryChars_eq hef.1 (ih e.2 (List.mem_map_of_mem he) f.2
          (hb.child (List.mem_map_of_mem hf)) hef.2)
      | _ => cases hlabel
    | _ => cases hnode

/-! ### Reading two texts side by side -/

section Reading

variable (hprinter : FloatPrinter.TellsApart)

include hprinter

/-- The kind of a value can be read off the front of its text. -/
lemma kind_eq_of_chars (ha : s.Acyclic a) (hb : t.Acyclic b) (hrest : EndsWord rest)
    (hrest' : EndsWord rest') (h : a.chars s ++ rest = b.chars t ++ rest') : a.kind = b.kind := by
  have hkind := congrArg kindOf h
  rw [kindOf_chars hprinter ha hrest, kindOf_chars hprinter hb hrest'] at hkind
  exact Option.some.inj hkind

/-- Values with nothing below them are told apart, and from what follows. -/
lemma leaf_append_inj (ha : a.node? = none) (hb : t.Acyclic b) (hrest : EndsWord rest)
    (hrest' : EndsWord rest') (h : a.chars s ++ rest = b.chars t ++ rest') :
    (s.label a).mergeNaN = (t.label b).mergeNaN ∧ rest = rest' := by
  have hkind := kind_eq_of_chars hprinter (Store.acyclic_of_node?_eq_none ha) hb hrest hrest' h
  cases a with
  | list r => cases ha
  | map r => cases ha
  | nil =>
    cases b with
    | nil =>
      rw [chars_nil, chars_nil] at h
      exact ⟨rfl, List.append_cancel_left h⟩
    | _ => cases hkind
  | bool x =>
    cases b with
    | bool y =>
      rw [chars_bool, chars_bool] at h
      cases x <;> cases y
      · exact ⟨rfl, List.append_cancel_left h⟩
      · cases (List.cons.inj h).1
      · cases (List.cons.inj h).1
      · exact ⟨rfl, List.append_cancel_left h⟩
    | _ => cases hkind
  | int i =>
    cases b with
    | int j =>
      rw [chars_int, chars_int] at h
      obtain ⟨hij, hr⟩ := word_append_inj (isWordChar_intChars _) (isWordChar_intChars _) hrest
        hrest' h
      rw [Int64.toInt_inj.1 (intChars_inj hij)]
      exact ⟨rfl, hr⟩
    | _ => cases hkind
  | float x =>
    cases b with
    | float y =>
      rw [chars_float, chars_float] at h
      obtain ⟨hxy, hr⟩ := word_append_inj x.isWordChar_textChars y.isWordChar_textChars hrest
        hrest' h
      have hnumber := Binary64.mergeNaN_eq_of_textChars_eq hprinter hxy
      exact ⟨congrArg (fun z => Label.scalar (.float z)) hnumber, hr⟩
    | _ => cases hkind
  | str u =>
    cases b with
    | str w =>
      rw [chars_str, chars_str] at h
      obtain ⟨rfl, hr⟩ := quoteText_append_inj h
      exact ⟨rfl, hr⟩
    | _ => cases hkind
  | bytes x =>
    cases b with
    | bytes y =>
      rw [chars_bytes, chars_bytes] at h
      obtain ⟨rfl, hr⟩ := quoteBytes_append_inj h
      exact ⟨rfl, hr⟩
    | _ => cases hkind
  | byteArray r =>
    cases b with
    | byteArray q =>
      simp only [chars_byteArray, List.append_assoc] at h
      obtain ⟨hdata, hr⟩ := quoteBytes_append_inj (List.append_cancel_left h)
      exact ⟨congrArg Label.byteArray hdata, (List.cons.inj hr).2⟩
    | _ => cases hkind

/-- Keys are told apart as the values they stand for are. -/
lemma key_append_inj {k l : Key} (hrest : EndsWord rest) (hrest' : EndsWord rest')
    (h : k.text ++ rest = l.text ++ rest') : k.mergeNaN = l.mergeNaN ∧ rest = rest' := by
  have hlabel : ∀ m : Key, (Store.empty.label m.toValue).mergeNaN = .scalar m.mergeNaN.toValue :=
    fun m => by cases m <;> rfl
  have hinj : ∀ m n : Key, m.toValue = n.toValue → m = n := by
    intro m n hmn
    cases m <;> cases n <;> cases hmn <;> rfl
  rw [← chars_toValue .empty, ← chars_toValue .empty] at h
  obtain ⟨hkl, hr⟩ := leaf_append_inj hprinter k.node?_toValue
    (Store.acyclic_of_node?_eq_none l.node?_toValue) hrest hrest' h
  rw [hlabel, hlabel] at hkl
  exact ⟨hinj _ _ (Label.scalar.inj hkl), hr⟩

/-- The text of a value starts with no character that no value starts with. -/
lemma chars_append_ne (ha : s.Acyclic a) (hrest : EndsWord rest) {c : Char}
    (hc : kindOf (c :: rest') = none) : a.chars s ++ rest ≠ c :: rest' := by
  intro h
  have hkind := kindOf_chars hprinter ha hrest
  rw [h, hc] at hkind
  cases hkind

/-- The text of an entry does not start like the end of a map. -/
lemma entryChars_append_ne (e : Key × Value) :
    entryChars s e ++ rest ≠ '}' :: rest' := by
  rw [entryChars, ← chars_toValue s, List.append_assoc]
  exact chars_append_ne hprinter (Store.acyclic_of_node?_eq_none e.1.node?_toValue)
    (endsWord_cons (by decide) _) rfl

/-- Texts tell acyclic values apart, and from what follows. -/
lemma chars_append_inj (ha : s.Acyclic a) : ∀ b rest rest', t.Acyclic b → EndsWord rest →
    EndsWord rest' → a.chars s ++ rest = b.chars t ++ rest' → s.Identical t a b ∧ rest = rest' := by
  refine ha.induction ?_
  intro a ha ih b rest rest' hb hrest hrest' h
  have hkind := kind_eq_of_chars hprinter ha hb hrest hrest' h
  cases hnode : a.node? with
  | none =>
    obtain ⟨hlabel, hr⟩ := leaf_append_inj hprinter hnode hb hrest hrest' h
    exact ⟨Store.identical_of_leaf hnode hlabel, hr⟩
  | some r =>
    cases a with
    | list r =>
      cases b with
      | list q =>
        rw [chars_list ha, chars_list hb] at h
        rw [Store.identical_list_iff]
        refine bracket_append_inj (by decide) (by decide) ?_ ?_ ?_ h
        · exact fun v hv _ _ hr => chars_append_ne hprinter (ha.child hv) hr rfl
        · exact fun w hw _ _ hr => chars_append_ne hprinter (hb.child hw) hr rfl
        · exact fun v hv w hw rest rest' => ih v hv w rest rest' (hb.child hw)
      | _ => cases hkind
    | map r =>
      cases b with
      | map q =>
        rw [chars_map ha, chars_map hb] at h
        rw [Store.identical_map_iff]
        refine bracket_append_inj (by decide) (by decide) ?_ ?_ ?_ h
        · exact fun e _ rest _ _ => entryChars_append_ne hprinter e
        · exact fun f _ rest _ _ => entryChars_append_ne hprinter f
        · intro e he f hf rest rest' hr hr' hef
          -- the colon ends the word that a key may be
          simp only [entryChars, List.append_assoc, List.cons_append] at hef
          obtain ⟨hkey, htail⟩ := key_append_inj hprinter (endsWord_cons (by decide) _)
            (endsWord_cons (by decide) _) hef
          obtain ⟨hvalue, hrest⟩ := ih e.2 (List.mem_map_of_mem he) f.2 rest rest'
            (hb.child (List.mem_map_of_mem hf)) hr hr' (List.cons.inj (List.cons.inj htail).2).2
          exact ⟨⟨hkey, hvalue⟩, hrest⟩
      | _ => cases hkind
    | _ => cases hnode

end Reading

/-- Two acyclic values have the same text exactly when every path leads from both to values of the
same kind with the same payload, length or keys, or from both to nothing. The entries of a map are
counted in the order in which it holds them, and all NaNs count as one. The printer has to give
different numbers different decimals. -/
theorem repr_eq_iff_identical (hprinter : FloatPrinter.TellsApart) (ha : s.Acyclic a)
    (hb : t.Acyclic b) :
    a.repr s = b.repr t ↔
      ∀ p, (s.follow a p).map (fun v => (s.label v).mergeNaN) =
        (t.follow b p).map (fun v => (t.label v).mergeNaN) := by
  rw [repr_eq_iff]
  constructor
  · intro h
    have hnil : EndsWord [] := fun c hc => by cases hc
    exact (chars_append_inj hprinter ha b [] [] hb hnil hnil (by rw [h])).1
  · exact fun h => chars_eq_of_identical ha b hb h

end Value

end

namespace Value

section

attribute [local instance] Platform.standard

/-- A map that holds a list with a NaN and the integer one, and the same with the number one. -/
theorem repr_ne_of_int_and_float :
    let list := fun last => Cell.list [.float .nan, last]
    let map := Cell.map [(.str "rows", .list ⟨0⟩)]
    let s : Store := ⟨#[list (.int 1), map]⟩
    let t : Store := ⟨#[list (.float (.ofInt 1)), map]⟩
    FloatPrinter.TellsApart ∧ s.Acyclic (.map ⟨1⟩) ∧ t.Acyclic (.map ⟨1⟩) ∧
      (Value.map ⟨1⟩).repr s ≠ (Value.map ⟨1⟩).repr t := by
  intro list map s t
  have hs : s.Acyclic (.map ⟨1⟩) := Store.Layered.acyclic (by decide) _
  have ht : t.Acyclic (.map ⟨1⟩) := Store.Layered.acyclic (by decide) _
  refine ⟨Platform.tellsApart_standard, hs, ht, fun h => ?_⟩
  exact absurd ((repr_eq_iff_identical Platform.tellsApart_standard hs ht).1 h [0, 1]) (by decide)

/-- Two maps that are filled in the same way, but for the sign of a NaN among the keys. The sign
decides where a map holds the key, so the two texts differ in the order of their entries, although
the entries are the same when all NaNs count as one. -/
theorem repr_differs_by_sign_of_nan :
    let filled : Binary64 → Entries Value := fun x =>
      Entries.insert (.float ⟨0x3ff8000000000000⟩) (.int 2) (Entries.insert (.float x) (.int 1) [])
    let merged : Entries Value → Entries Value := fun es => es.map fun e => (e.1.mergeNaN, e.2)
    let s : Store := ⟨#[.map (filled Binary64.nan.neg)]⟩
    let t : Store := ⟨#[.map (filled .nan)]⟩
    s.Acyclic (.map ⟨0⟩) ∧ t.Acyclic (.map ⟨0⟩) ∧
      (merged (filled Binary64.nan.neg)).Perm (merged (filled .nan)) ∧
      (Value.map ⟨0⟩).repr s = "{nan: 1, 1.5: 2}" ∧
      (Value.map ⟨0⟩).repr t = "{1.5: 2, nan: 1}" := by
  intro filled merged s t
  have hs : s.Acyclic (.map ⟨0⟩) := Store.Layered.acyclic (by decide) _
  have ht : t.Acyclic (.map ⟨0⟩) := Store.Layered.acyclic (by decide) _
  have hhalf : Binary64.textChars ⟨0x3ff8000000000000⟩ = "1.5".toList := by decide +kernel
  have hnan : ∀ {x : Binary64}, x.isNaN = true → x.textChars = "nan".toList :=
    Binary64.textChars_of_isNaN
  refine ⟨hs, ht, List.Perm.swap _ _ _, ?_, ?_⟩
  · rw [repr_eq, chars_map hs]
    change String.ofList (bracket '{' '}' [entryChars s (.float Binary64.nan.neg, .int 1),
      entryChars s (.float ⟨0x3ff8000000000000⟩, .int 2)]) = _
    simp only [entryChars, Key.text, hhalf, chars_int, hnan (x := Binary64.nan.neg) rfl]
    rfl
  · rw [repr_eq, chars_map ht]
    change String.ofList (bracket '{' '}' [entryChars t (.float ⟨0x3ff8000000000000⟩, .int 2),
      entryChars t (.float .nan, .int 1)]) = _
    simp only [entryChars, Key.text, hhalf, chars_int, hnan (x := .nan) rfl]
    rfl

end

end Value

end Dynval
