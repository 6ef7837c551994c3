import Dynval.Proofs.Datum.View
import Dynval.Proofs.Text.Word
import Dynval.Value.Text

/-!
# The text of data

A renderer adds the text of a datum to what it has written: the datum of the value below the lists
and maps that it is inside of (`Renderer.out_value`). So the text of a value is that of its datum
(`Value.repr_eq`), and values with one datum have one text.
-/

namespace Dynval

/-- Items between brackets, with commas between them. -/
def Text.bracket (left right : Char) (items : List (List Char)) : List Char :=
  left :: List.intercalate [',', ' '] items ++ [right]

section

variable [FloatPrinter]

def Key.text : Key → List Char
  | .nil => "None".toList
  | .int i => intChars i.toInt
  | .float x => x.textChars
  | .str s => Text.quoteText s
  | .bytes data => Text.quoteBytes data

def Datum.text : Datum → List Char
  | .nil => "None".toList
  | .bool b => if b then "True".toList else "False".toList
  | .int i => intChars i.toInt
  | .float x => x.textChars
  | .str s => Text.quoteText s
  | .bytes data => Text.quoteBytes data
  | .byteArray data => "bytearray(".toList ++ Text.quoteBytes data ++ [')']
  | .list items => Text.bracket '[' ']' (items.map text)
  | .map entries => Text.bracket '{' '}' (entries.map fun e => e.1.text ++ ':' :: ' ' :: text e.2)
  | .cutList => "[...]".toList
  | .cutMap => ['{', '.', '.', '.', '}']
decreasing_by
  · decreasing_tactic
  · rename_i h
    have := List.sizeOf_lt_of_mem h
    cases e
    simp only [Datum.map.sizeOf_spec, Prod.mk.sizeOf_spec] at *
    omega

end

/-! ### Renderers write data -/

namespace Renderer

variable {s : Store} {r : Renderer}

@[simp] lemma out_put (r : Renderer) (cs : List Char) :
    (r.put cs).out = r.out ++ String.ofList cs := rfl

@[simp] lemma active_put (r : Renderer) (cs : List Char) : (r.put cs).active = r.active := rfl

@[simp] lemma out_push (r : Renderer) (ref : Ref) : (r.push ref).out = r.out := rfl

@[simp] lemma active_push (r : Renderer) (ref : Ref) : (r.push ref).active = ref :: r.active := rfl

@[simp] lemma out_pop (r : Renderer) : r.pop.out = r.out := rfl

/-- Texts from the one at position `i` on, each but the first of all behind a comma. -/
def joinFrom : Nat → List (List Char) → List Char
  | _, [] => []
  | i, text :: texts => (if 0 < i then [',', ' '] else []) ++ text ++ joinFrom (i + 1) texts

/-- Behind the first item every item has its comma. -/
lemma joinFrom_succ (i : Nat) (texts : List (List Char)) :
    joinFrom (i + 1) texts = texts.flatMap ([',', ' '] ++ ·) := by
  induction texts generalizing i with
  | nil => rfl
  | cons text texts ih => rw [joinFrom, if_pos i.succ_pos, ih, List.flatMap_cons]

/-- From the start, commas stand between items. -/
lemma joinFrom_zero (texts : List (List Char)) :
    joinFrom 0 texts = [',', ' '].intercalate texts := by
  cases texts with
  | nil => rfl
  | cons text texts =>
    rw [joinFrom, if_neg (Nat.lt_irrefl 0), joinFrom_succ, Text.intercalate_cons, List.nil_append]

lemma out_comma (r : Renderer) (i : Nat) :
    (r.comma i).out = r.out ++ String.ofList (if 0 < i then [',', ' '] else []) := by
  unfold comma
  split_ifs
  · rfl
  · rw [String.ofList_nil, String.append_empty]

variable [FloatPrinter]

/-- Writing a value leaves the lists and maps that are being written as they were. -/
lemma active_value (s : Store) (quoted : Bool) (v : Value) (r : Renderer) :
    (value s quoted v r).1.active = r.active :=
  (value s quoted v r).2

/-- What stands between the brackets of a list, if each item adds its text wherever it stands. -/
lemma out_items {vs : List Value} {text : Value → List Char}
    (h : ∀ v ∈ vs, ∀ r' : Renderer, r'.active = r.active →
      (value s true v r').1.out = r'.out ++ String.ofList (text v)) (i : Nat) :
    (items s i vs r).1.out = r.out ++ String.ofList (joinFrom i (vs.map text)) := by
  induction vs generalizing i r with
  | nil => simp [items, joinFrom]
  | cons v vs ih =>
    obtain ⟨hv, hvs⟩ := List.forall_mem_cons.1 h
    have hactive : (value s true v (r.comma i)).1.active = r.active := by
      rw [active_value, active_comma]
    simp only [items, List.map_cons, joinFrom]
    rw [ih fun w hw r' hr' => hvs w hw r' (hr'.trans hactive), hv _ (active_comma r i), out_comma]
    simp only [String.append_assoc, ← String.ofList_append, List.append_assoc]

/-- A key is written as its text. -/
lemma out_key (s : Store) (k : Key) (r : Renderer) :
    (value s true k.toValue r).1.out = r.out ++ String.ofList k.text := by
  cases k <;> simp [Key.toValue, Key.text, value]

/-- What stands between the brackets of a map, if each value adds its text wherever it stands. -/
lemma out_entries {es : Entries Value} {text : Value → List Char}
    (h : ∀ e ∈ es, ∀ r' : Renderer, r'.active = r.active →
      (value s true e.2 r').1.out = r'.out ++ String.ofList (text e.2)) (i : Nat) :
    (entries s i es r).1.out =
      r.out ++ String.ofList (joinFrom i (es.map fun e => e.1.text ++ ':' :: ' ' :: text e.2)) := by
  induction es generalizing i r with
  | nil => simp [entries, joinFrom]
  | cons e es ih =>
    obtain ⟨hv, hvs⟩ := List.forall_mem_cons.1 h
    obtain ⟨k, v⟩ := e
    have hkey : ((value s true k.toValue (r.comma i)).1.put [':', ' ']).active = r.active := by
      rw [active_put, active_value, active_comma]
    simp only [entries, List.map_cons, joinFrom]
    rw [ih fun w hw r' hr' => hvs w hw r' (hr'.trans ((active_value _ _ _ _).trans hkey)),
      hv _ hkey, out_put, out_key, out_comma]
    simp only [String.append_assoc, ← String.ofList_append, List.append_assoc, List.cons_append,
      List.nil_append]

/-- A value adds the text of its datum below the lists and maps that are being written. -/
lemma out_value (path : List Ref) (v : Value) : ∀ r : Renderer, r.active = path →
    (value s true v r).1.out = r.out ++ String.ofList (v.viewBelow s path).text := by
  induction path, v using Value.viewBelow.induct s with
  | case1 | case2 | case3 | case4 | case5 | case6 | case7 =>
    intro r _
    simp only [value, Value.viewBelow, Datum.text, out_put, String.append_assoc,
      ← String.ofList_append, List.append_assoc, if_true]
  | case8 path ref hmem =>
    rintro r rfl
    rw [value, dif_pos hmem, Value.viewBelow_list, if_pos hmem, Datum.text]
    rfl
  | case9 path ref hmem ih =>
    rintro r rfl
    have hitems := out_items (r := (r.push ref).put ['[']) ih 0
    simp only [joinFrom_zero, out_put, out_push] at hitems
    rw [value, dif_neg hmem, Value.viewBelow_list, if_neg hmem, Datum.text, List.map_map,
      Text.bracket, out_pop, out_put, hitems]
    simp only [String.append_assoc, ← String.ofList_append, List.cons_append, List.nil_append,
      Function.comp_def]
  | case10 path ref hmem =>
    rintro r rfl
    rw [value, dif_pos hmem, Value.viewBelow_map, if_pos hmem, Datum.text]
    rfl
  | case11 path ref hmem ih =>
    rintro r rfl
    have hentries := @out_entries s ((r.push ref).put ['{']) _ (s.entries ref)
      (fun v => (v.viewBelow s (ref :: r.active)).text) ih 0
    simp only [joinFrom_zero, out_put, out_push] at hentries
    rw [value, dif_neg hmem, Value.viewBelow_map, if_neg hmem, Datum.text, Text.bracket, out_pop,
      out_put, hentries]
    simp only [Store.children, Entries.keys, List.map_map, List.zip_map', String.append_assoc,
      ← String.ofList_append, List.cons_append, List.nil_append, Function.comp_def]

end Renderer

namespace Value

variable [FloatPrinter] {s t : Store} {v w : Value}

def chars (s : Store) (v : Value) : List Char :=
  (v.view s).text

/-- The renderer writes the text of the datum. -/
lemma repr_eq (s : Store) (v : Value) : v.repr s = String.ofList (v.chars s) := by
  rw [repr, Renderer.out_value [] v {} rfl, String.empty_append]
  rfl

/-- Texts are equal exactly when their characters are. -/
lemma repr_eq_iff : v.repr s = w.repr t ↔ v.chars s = w.chars t := by
  rw [repr_eq, repr_eq, String.ofList_inj]

/-- Values with one datum have one text, in whatever stores they are. -/
lemma repr_eq_of_view_eq (h : v.view s = w.view t) : v.repr s = w.repr t := by
  rw [repr_eq_iff, chars, chars, h]

/-- Only texts are displayed otherwise. -/
lemma display_eq_repr (s : Store) (h : v.kind ≠ .str) : v.display s = v.repr s := by
  have hquoted : ∀ r, Renderer.value s false v r = Renderer.value s true v r := by
    intro r
    cases v with
    | str => exact absurd rfl h
    | _ => rw [Renderer.value, Renderer.value]
  cases v with
  | str => exact absurd rfl h
  | _ => simp only [display, repr, hquoted]

/-- Only nil converts to another text than the one for reading. -/
lemma toText_eq_display (s : Store) (h : v.kind ≠ .nil) : v.toText s = v.display s := by
  cases v with
  | nil => exact absurd rfl h
  | _ => rfl

end Value

end Dynval
