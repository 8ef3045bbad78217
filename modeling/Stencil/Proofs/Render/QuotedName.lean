import Stencil.Demo.Page
import Stencil.Proofs.Markup.Backslashes
import Stencil.Proofs.Markup.QuotedWord
import Stencil.Proofs.Render.Interpretation
import Stencil.Proofs.Render.Inversion

/-!
# Quoted names of partials

A helper that gets a quoted word gets the string that the word denotes, without the backslashes in
front of quotes. The tag of a partial takes the same word as it is written. The two are the same
exactly if there is no quote in the word. If there is one, no tag of any template includes the
partial that is registered under the string: a name with a quote in it is written between quotes,
and then a backslash stands in front of the quote.
-/

namespace Stencil

/-! ### Words and what they denote -/

theorem quote_mem_enquote_iff {text : List Char} : '"' ∈ enquote text ↔ '"' ∈ text := by
  simp only [enquote, List.mem_flatMap]
  constructor
  · rintro ⟨char, hchar, hmem⟩
    by_cases hquote : char = '"'
    · rwa [← hquote]
    · rw [if_neg hquote, List.mem_singleton] at hmem
      exact absurd hmem.symm hquote
  · exact fun h => ⟨'"', h, by simp⟩

theorem enquote_eq_self_iff {text : List Char} : enquote text = text ↔ '"' ∉ text := by
  constructor
  · intro h hmem
    induction text with
    | nil => cases hmem
    | cons char text ih =>
      by_cases hquote : char = '"'
      · rw [hquote, enquote_quote] at h
        exact absurd (List.cons.inj h).1 (by decide)
      · rw [enquote_of_ne hquote] at h
        refine ih (List.cons.inj h).2 ((List.mem_cons.1 hmem).resolve_left (Ne.symm hquote))
  · intro h
    induction text with
    | nil => rfl
    | cons char text ih =>
      rw [List.mem_cons, not_or] at h
      rw [enquote_of_ne (Ne.symm h.1), ih h.2]

theorem isQuotable_iff_of_enquote {text : List Char} (h : IsQuotable (enquote text)) :
    IsQuotable text ↔ '"' ∉ text := by
  refine ⟨fun hquotable hmem => ?_, fun hquote => enquote_eq_self_iff.2 hquote ▸ h⟩
  obtain ⟨before, after, hsplit⟩ := List.append_of_mem hmem
  have heven := (isQuotable_enquote_iff.1 h).quotes before after hsplit
  have hodd := (isQuotable_iff_slashRuns.1 hquotable).quotes before after hsplit
  exact Nat.not_even_iff_odd.2 hodd heven

section

variable {content : List Char} (h : IsQuotable content)

include h

theorem quote_mem_unquote_iff : '"' ∈ unquote content ↔ '"' ∈ content := by
  conv_rhs => rw [← enquote_unquote h]
  exact quote_mem_enquote_iff.symm

theorem unquote_eq_self_iff : content = unquote content ↔ '"' ∉ content := by
  rw [← quote_mem_unquote_iff h, ← enquote_eq_self_iff, enquote_unquote h]

theorem isQuotable_unquote_iff : IsQuotable (unquote content) ↔ '"' ∉ content := by
  rw [isQuotable_iff_of_enquote (by rwa [enquote_unquote h]), quote_mem_unquote_iff h]

end

/-! ### Names of partials -/

/-- The name of a partial that was parsed, at any depth, is a bare word or can stand between
quotes. -/
theorem name_of_parse {source : String} {nodes : List Node} (h : parse source = .ok nodes) {name : String}
    {context : Option Expr} (hnode : Node.Among (.inclusion name context) nodes) :
    Word.IsName name.toList ∨ IsQuotable name.toList := by
  obtain ⟨row, -, hdraft⟩ := parseText_eq_ok_iff.1 (parse_eq_ok_iff.1 h)
  obtain ⟨other, hother, hwithin⟩ := hnode
  obtain ⟨_, _, _, -, hmakes⟩ := (Draft.segments_eq_ok_iff_derivation.1 hdraft).exists_makes hother hwithin
  generalize hname : Node.inclusion name context = node at hmakes
  have hword : ∀ {place : Nat} {body : List Char} {first : Word} {others : List Word},
      Word.Row place body (first :: others) → first.key = none →
      Word.IsName first.value.toList ∨ IsQuotable first.value.toList := by
    intro place body first others hrow hkey
    have hfirst := hrow.wellFormed first List.mem_cons_self
    cases hquoted : first.quoted with
    | false => exact .inl (hfirst.name hquoted hkey)
    | true => exact .inr (hfirst.quoted hquoted)
  cases hmakes with
  | @block call _ inverted first second _ => cases inverted <;> cases hname
  | node hbecomes =>
    cases hbecomes with
    | inclusion hbody =>
      rw [← hname] at hbody
      obtain ⟨first, hkey, ⟨hrow, hsame⟩ | ⟨_, _, hrow, -, -, hsame⟩⟩ := Node.inclusionOfBody_eq_ok_iff.1 hbody
      · rw [(Node.inclusion.inj hsame).1]
        exact hword hrow hkey
      · rw [(Node.inclusion.inj hsame).1]
        exact hword hrow hkey
    | _ => cases hname

/-- Some template has the tag of a partial that is registered under what a quoted word denotes
exactly if the word has no quote. -/
theorem exists_inclusion_iff {content : List Char} (h : IsQuotable content) :
    (∃ source nodes context, parse source = .ok nodes ∧
      Node.Among (.inclusion (String.ofList (unquote content)) context) nodes) ↔ '"' ∉ content := by
  constructor
  · rintro ⟨source, nodes, context, hparse, hnode⟩
    rcases name_of_parse hparse hnode with hname | hquotable
    · rw [String.toList_ofList] at hname
      rw [← quote_mem_unquote_iff h]
      exact fun hmem => absurd (hname.2 _ hmem) (by decide)
    · rw [String.toList_ofList] at hquotable
      exact (isQuotable_unquote_iff h).1 hquotable
  · intro hquote
    rw [← (unquote_eq_self_iff h).2 hquote]
    have hrow := segmented_of_stands (List.forall_mem_singleton.2 (stands_inclusion h)) (.singleton _)
    exact ⟨_, _, none, parse_of_derivation hrow (derivation_inclusion h), .cons_self _ _⟩

/-! ### What the tags do -/

variable {φ σ : Type} [Callable φ]

namespace Renderer

variable (renderer : Renderer φ σ) (scope : Scope φ)

theorem ops_singleton (op : Op) : renderer.ops scope [op] = renderer.op scope op := by
  simp only [ops, pure_bind, String.append_empty, bind_pure]

theorem expression_helper {name : String} {helper : Helper φ}
    (hfind : renderer.environment.helpers.find? name = some helper)
    (hknown : renderer.options.knownHelpersOnly = true → renderer.options.isKnown name = true) (expr : Expr)
    (span : Span) :
    let call := renderer.options.invocable ⟨name, 0, false, [name]⟩
      ⟨.path ⟨name, 0, false, [name]⟩, [expr], [], span⟩
    renderer.expression call scope = renderer.invoke helper call scope {} := by
  intro call
  have hresolution : call.resolution = .helper := by
    change renderer.options.resolution ⟨name, 0, false, [name]⟩ true = .helper
    cases honly : renderer.options.knownHelpersOnly with
    | false => simp [CompileOptions.resolution, Path.isSimple, honly]
    | true => simp [CompileOptions.resolution, Path.isSimple, hknown honly]
  have htarget : renderer.target call scope = .helper helper := by
    have hregistered : renderer.environment.helpers.find? call.name = some helper := hfind
    simp only [target, hresolution, hregistered]
  rw [expression, htarget]

end Renderer

/-- **Quoted words as names and as parameters.** Take a word that can stand between quotes. Behind a
helper it passes the string that it denotes; in the tag of a partial it looks up what is written.
The two are the same exactly if there is no quote in the word. If there is one, no tag of any
template includes the partial that is registered under the string. -/
theorem quoted_lookup_iff {name content : List Char} (hname : HelperName name) (hcontent : IsQuotable content)
    {environment : Environment φ} {options : CompileOptions} {helper : Helper φ}
    (hfind : environment.helpers.find? (String.ofList name) = some helper)
    (hknown : options.knownHelpersOnly = true → options.isKnown (String.ofList name) = true)
    (host : Host φ σ) (limit : Nat) (context : Value φ) (data : Option (Table (Value φ))) :
    let renderer : Renderer φ σ := ⟨host, environment, options, Template.run host environment limit⟩
    let scope := options.root context data
    let text := String.ofList (unquote content)
    (∃ template,
      Template.compile (String.ofList (Segment.tag .inclusion (' ' :: betweenQuotes content)).raw) options =
        .ok template ∧
      template.run host environment (limit + 1) context data =
        renderer.inclusion (String.ofList content) none scope) ∧
    (∃ template,
      Template.compile (String.ofList (Segment.tag .escaped (name ++ ' ' :: betweenQuotes content)).raw) options =
        .ok template ∧
      template.run host environment (limit + 1) context data = do
        let value ← renderer.call helper
          { name := String.ofList name
            params := [.string text]
            hash := []
            contexts := if options.stringParams then [context] else []
            current := context
            data := scope.data
            isBlock := false
            hasInverse := false } scope {}
        return value.write true) ∧
    (String.ofList content = text ↔ '"' ∉ content) ∧
    ((∃ source nodes expr, parse source = .ok nodes ∧ Node.Among (.inclusion text expr) nodes) ↔
      '"' ∉ content) := by
  intro renderer scope text
  refine ⟨?_, ?_, ?_, exists_inclusion_iff hcontent⟩
  · have hrow := segmented_of_stands (List.forall_mem_singleton.2 (stands_inclusion hcontent)) (.singleton _)
    have hparse := parse_of_derivation hrow (derivation_inclusion hcontent)
    rw [List.flatMap_singleton] at hparse
    refine ⟨_, Template.compile_of_parse hparse options, ?_⟩
    exact renderer.ops_singleton scope _
  · have hrow := segmented_of_stands (List.forall_mem_singleton.2 (stands_helper hcontent hname)) (.singleton _)
    obtain ⟨span, hderivation⟩ := derivation_helper hcontent hname
    have hparse := parse_of_derivation hrow hderivation
    rw [List.flatMap_singleton] at hparse
    refine ⟨_, Template.compile_of_parse hparse options, ?_⟩
    let path : Path := ⟨String.ofList name, 0, false, [String.ofList name]⟩
    let call : Call := ⟨.path path, [.literal (.string text)], [], span⟩
    have hop := renderer.ops_singleton scope (.expression (options.invocable path call) true)
    have hexpression := renderer.expression_helper scope hfind hknown (.literal (.string text)) span
    rw [Renderer.op, hexpression] at hop
    exact hop
  · rw [String.ofList_inj]
    exact unquote_eq_self_iff hcontent

/-- A helper that gives back its first parameter, and a partial with a quote in its name. -/
def echoEnvironment : Environment Empty where
  helpers := [("h", .custom fun invocation => .done (invocation.params.headD .null))]
  partials := [("a\"b", .function fun _ => .ok "x")]

/-- The partial is there under what the word denotes, and no tag looks it up. -/
theorem quoted_lookup_quote :
    (∃ template, Template.compile "\x7b\x7b> \"a\\\"b\"\x7d\x7d" {} = .ok template ∧
      (template.run .plain echoEnvironment 1 .null none ()).1 = .failed (.partialNotFound "a\\\"b")) ∧
    (∃ template, Template.compile "\x7b\x7bh \"a\\\"b\"\x7d\x7d" {} = .ok template ∧
      (template.run .plain echoEnvironment 1 .null none ()).1 = .done "a&quot;b") ∧
    ¬∃ source nodes expr, parse source = .ok nodes ∧ Node.Among (.inclusion "a\"b" expr) nodes := by
  have hcontent : IsQuotable ['a', '\\', '"', 'b'] := rfl
  have hfind : echoEnvironment.helpers.find? (String.ofList ['h']) = some _ := rfl
  have hknown : CompileOptions.knownHelpersOnly {} = true →
      CompileOptions.isKnown {} (String.ofList ['h']) = true := nofun
  obtain ⟨⟨inclusion, hinclusion, hlookup⟩, ⟨call, hcall, hpassed⟩, -, hnone⟩ :=
    quoted_lookup_iff helperName_h hcontent hfind hknown .plain 0 .null none
  refine ⟨⟨inclusion, ?_, ?_⟩, ⟨call, ?_, ?_⟩, ?_⟩
  · have hsource : String.ofList (Segment.tag .inclusion (' ' :: betweenQuotes ['a', '\\', '"', 'b'])).raw =
        "\x7b\x7b> \"a\\\"b\"\x7d\x7d" := by decide
    rw [hsource] at hinclusion
    exact hinclusion
  · rw [hlookup]
    rfl
  · have hsource : String.ofList (Segment.tag .escaped (['h'] ++ ' ' :: betweenQuotes ['a', '\\', '"', 'b'])).raw =
        "\x7b\x7bh \"a\\\"b\"\x7d\x7d" := by decide
    rw [hsource] at hcall
    exact hcall
  · rw [hpassed]
    rfl
  · have hquote : '"' ∈ ['a', '\\', '"', 'b'] := by decide
    exact fun h => absurd hquote (hnone.1 h)

/-- The helper gets the name of the partial, and the partial is not found. -/
theorem quoted_lookup_differs :
    (∃ span, parse "\x7b\x7bh \"a\\\"b\"\x7d\x7d" =
      .ok [.mustache ⟨.path ⟨"h", 0, false, ["h"]⟩, [.literal (.string "a\"b")], [], span⟩ true]) ∧
    parse "\x7b\x7b> \"a\\\"b\"\x7d\x7d" = .ok [.inclusion "a\\\"b" none] ∧ "a\\\"b" ≠ "a\"b" ∧
    (echoEnvironment.partials.find? "a\"b").isSome = true ∧
    ((⟨compileNodes {} [.inclusion "a\\\"b" none], {}⟩ : Template).run .plain echoEnvironment 1 .null none ()).1 =
      .failed (.partialNotFound "a\\\"b") :=
  ⟨⟨_, rfl⟩, rfl, by decide, rfl, rfl⟩

end Stencil
