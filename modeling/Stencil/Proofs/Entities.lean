import Mathlib.Logic.Function.Basic
import Stencil.Proofs.Html
import Stencil.Value.Text

/-!
# Escaping loses nothing

Escaped text can be read back: each entity stands for its character, and every ampersand of the text
was escaped too, so text that looked like an entity before is not taken for one. Escaping goes
character by character, so it can be done in parts, and it leaves alone exactly the text that has
none of the six characters. What a tag writes for a value, unless it is safe text, reads as the text
of the value.
-/

namespace Stencil.Html

def specials : List Char :=
  ['&', '<', '>', '"', '\'', '`']

def entities : List String :=
  ["&amp;", "&lt;", "&gt;", "&quot;", "&#x27;", "&#x60;"]

/-- Replaces entities by their characters, in one pass from left to right. -/
def decode : List Char → List Char
  | '&' :: 'a' :: 'm' :: 'p' :: ';' :: rest => '&' :: decode rest
  | '&' :: 'l' :: 't' :: ';' :: rest => '<' :: decode rest
  | '&' :: 'g' :: 't' :: ';' :: rest => '>' :: decode rest
  | '&' :: 'q' :: 'u' :: 'o' :: 't' :: ';' :: rest => '"' :: decode rest
  | '&' :: '#' :: 'x' :: '2' :: '7' :: ';' :: rest => '\'' :: decode rest
  | '&' :: '#' :: 'x' :: '6' :: '0' :: ';' :: rest => '`' :: decode rest
  | char :: rest => char :: decode rest
  | [] => []

def unescape (text : String) : String :=
  String.ofList (decode text.toList)

/-! ### Characters -/

theorem entity?_eq_none_iff {char : Char} : entity? char = none ↔ char ∉ specials := by
  rw [entity?.eq_def]
  split
  case h_7 => simp_all [specials]
  all_goals simp [specials]

theorem mem_entities_of_entity {special : Char} {entity : List Char} (h : entity? special = some entity) :
    String.ofList entity ∈ entities := by
  rw [entity?.eq_def] at h
  split at h
  case h_7 => cases h
  all_goals
    obtain rfl := Option.some.inj h
    decide

theorem escapeChar_of_entity {special : Char} {entity : List Char} (h : entity? special = some entity) :
    escapeChar special = entity := by
  rw [escapeChar, h]
  rfl

theorem escapeChar_of_plain {char : Char} (h : entity? char = none) : escapeChar char = [char] := by
  rw [escapeChar, h]
  rfl

theorem decode_cons {char : Char} (h : char ≠ '&') (rest : List Char) :
    decode (char :: rest) = char :: decode rest := by
  rw [decode.eq_def]
  split <;> simp_all

theorem decode_entity {special : Char} {entity : List Char} (h : entity? special = some entity) (rest : List Char) :
    decode (entity ++ rest) = special :: decode rest := by
  rw [entity?.eq_def] at h
  split at h
  case h_7 => cases h
  all_goals
    obtain rfl := Option.some.inj h
    rfl

theorem decode_escapeChar (char : Char) (rest : List Char) :
    decode (escapeChar char ++ rest) = char :: decode rest := by
  cases hentity : entity? char with
  | none =>
    have hchar : char ≠ '&' := by
      rintro rfl
      cases hentity
    rw [escapeChar_of_plain hentity]
    exact decode_cons hchar rest
  | some entity => rw [escapeChar_of_entity hentity, decode_entity hentity]

/-! ### Text -/

theorem escape_append (left right : String) : escape (left ++ right) = escape left ++ escape right := by
  rw [escape, String.toList_append, List.flatMap_append, String.ofList_append]
  rfl

theorem unescape_escape (text : String) : unescape (escape text) = text := by
  have hdecode : ∀ chars : List Char, decode (chars.flatMap escapeChar) = chars := by
    intro chars
    induction chars with
    | nil => rfl
    | cons char rest ih => rw [List.flatMap_cons, decode_escapeChar, ih]
  rw [unescape, escape, String.toList_ofList, hdecode, String.ofList_toList]

theorem count_semicolon_flatMap_escapeChar (chars : List Char) :
    (chars.flatMap escapeChar).count ';' = chars.count ';' + chars.countP (· ∈ specials) := by
  have hchar : ∀ char, (escapeChar char).count ';' = [char].count ';' + [char].countP (· ∈ specials) := by
    intro char
    by_cases hspecial : char ∈ specials
    · rw [specials] at hspecial
      simp only [List.mem_cons, List.not_mem_nil, or_false] at hspecial
      rcases hspecial with rfl | rfl | rfl | rfl | rfl | rfl <;> rfl
    · rw [escapeChar_of_plain (entity?_eq_none_iff.2 hspecial), List.countP_singleton, decide_eq_false hspecial]
      rfl
  induction chars with
  | nil => rfl
  | cons char rest ih =>
    have hcons : char :: rest = [char] ++ rest := rfl
    rw [List.flatMap_cons, List.count_append, hchar, ih, hcons, List.count_append, List.countP_append]
    omega

theorem escape_eq_self_iff {text : String} : escape text = text ↔ ∀ char ∈ text.toList, char ∉ specials := by
  constructor
  · intro heq char hchar hspecial
    have hcount := count_semicolon_flatMap_escapeChar text.toList
    have hpos : 0 < text.toList.countP (· ∈ specials) :=
      List.countP_pos_iff.2 ⟨char, hchar, decide_eq_true hspecial⟩
    rw [← String.toList_ofList (l := text.toList.flatMap escapeChar), ← escape, heq] at hcount
    omega
  · exact fun h => escape_of_plain fun char hchar => entity?_eq_none_iff.2 (h char hchar)

/-- **Escaping loses nothing and lets nothing through.** Text is escaped part by part. Reading the
entities of escaped text, in one pass, gives the text back, so no two texts are escaped alike.
Escaped text has none of the other special characters, and each ampersand in it begins an entity.
Only text without special characters is escaped to itself. And what a tag that escapes writes for a
value, unless it is safe text, reads as the text of the value. -/
theorem escape_faithful {φ : Type} :
    (∀ left right, escape (left ++ right) = escape left ++ escape right) ∧
    (∀ text, unescape (escape text) = text) ∧
    Function.Injective escape ∧
    (∀ text, (∀ char ∈ (escape text).toList, char ∈ specials → char = '&') ∧
      ∀ before after, (escape text).toList = before ++ '&' :: after →
        ∃ entity ∈ entities, entity.toList <+: '&' :: after) ∧
    (∀ text, escape text = text ↔ ∀ char ∈ text.toList, char ∉ specials) ∧
    ∀ value : Value φ, (∀ text, value ≠ .safe text) → unescape value.escaped = value.render := by
  have hinjective : Function.Injective escape := Function.LeftInverse.injective unescape_escape
  refine ⟨escape_append, unescape_escape, hinjective, fun text => ⟨?_, ?_⟩, fun _ => escape_eq_self_iff, ?_⟩
  · intro char hchar hspecial
    refine (Inert.escaped text).eq_ampersand char hchar fun hnone => ?_
    exact entity?_eq_none_iff.1 hnone hspecial
  · intro before after htext
    obtain ⟨special, entity, hentity, hprefix⟩ := (Inert.escaped text).entity_of_ampersand htext
    exact ⟨String.ofList entity, mem_entities_of_entity hentity, by rwa [String.toList_ofList]⟩
  · intro value hvalue
    cases value with
    | safe text => exact absurd rfl (hvalue text)
    | null => rfl
    | _ => exact unescape_escape _

/-- An array with safe text in it, whose text already looks escaped. -/
theorem escape_faithful_array :
    let value : Value Empty := .array [.safe "<b>&lt;</b>", .array [.string "a & b", .null], .boolean true]
    value.escaped = "&lt;b&gt;&amp;lt;&lt;/b&gt;,a &amp; b,,true" ∧
      unescape "&lt;b&gt;&amp;lt;&lt;/b&gt;,a &amp; b,,true" = "<b>&lt;</b>,a & b,,true" := by
  intro value
  have hescaped : value.escaped = "&lt;b&gt;&amp;lt;&lt;/b&gt;,a &amp; b,,true" := by decide +kernel
  have hrender : value.render = "<b>&lt;</b>,a & b,,true" := by decide +kernel
  obtain ⟨-, -, -, -, -, hvalues⟩ := escape_faithful (φ := Empty)
  refine ⟨hescaped, ?_⟩
  rw [← hescaped, ← hrender]
  exact hvalues value fun text => nofun

end Stencil.Html
