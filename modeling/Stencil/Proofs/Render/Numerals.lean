import Stencil.Proofs.Html
import Stencil.Proofs.Markup.NumeralWord
import Stencil.Proofs.Render.QuotedName
import Stencil.Proofs.Render.Sections

/-!
# Numerals in templates

The tag of a whole numeral writes the numeral as it is, as long as it fits 64 bits. A numeral with a
superfluous zero in front is written as it is too, whatever its length, because it is kept as text.
As text it always counts as true, so a condition on a numeral fails exactly if the numeral denotes
zero and has no such zero in front.
-/

namespace Stencil

variable {φ σ : Type}

namespace Numeral

variable {numeral : Numeral}

/-! ### Values of numerals -/

theorem value_of_padded (hpadded : numeral.Padded) :
    (Literal.number (String.ofList numeral.text)).value = (.string (String.ofList numeral.text) : Value φ) := by
  simp only [Literal.value, String.toList_ofList, ofNumeral?_text, if_pos hpadded]

theorem value_of_number {number : Number} (h : Number.ofNumeral? numeral.text = some number) :
    (Literal.number (String.ofList numeral.text)).value = (.number number : Value φ) := by
  simp only [Literal.value, String.toList_ofList, h]

theorem fits64_integer (hwhole : numeral.fraction = none) (hlow : -2 ^ 63 ≤ numeral.value)
    (hhigh : numeral.value ≤ 2 ^ 64 - 1) : Number.fits64 numeral.integer = true := by
  rw [value_eq_integer hwhole] at hlow hhigh
  have hlow : -2 ^ 63 ≤ numeral.integer := by exact_mod_cast hlow
  have hhigh : numeral.integer ≤ 2 ^ 64 - 1 := by exact_mod_cast hhigh
  rw [Number.fits64, decide_eq_true_iff]
  omega

theorem escape_text : Html.escape (String.ofList numeral.text) = String.ofList numeral.text := by
  apply Html.escape_of_plain
  intro char hchar
  rw [String.toList_ofList] at hchar
  rcases numeral.mem_text hchar with rfl | rfl | hdigit
  · rfl
  · rfl
  · exact Html.entity?_of_isDigit hdigit

/-- The value of a whole numeral of 64 bits, and of one with a superfluous zero, has the numeral as
its text. -/
theorem write_value (hwhole : numeral.fraction = none) (hzero : numeral.text ≠ ['-', '0'])
    (hrange : numeral.Padded ∨ -2 ^ 63 ≤ numeral.value ∧ numeral.value ≤ 2 ^ 64 - 1) (escape : Bool) :
    ((Literal.number (String.ofList numeral.text)).value : Value φ).write escape =
      String.ofList numeral.text := by
  by_cases hpadded : numeral.Padded
  · rw [value_of_padded hpadded]
    cases escape with
    | true => exact escape_text
    | false => rfl
  · obtain ⟨hlow, hhigh⟩ := hrange.resolve_left hpadded
    obtain ⟨hread, hwrite⟩ := ofNumeral?_integer hwhole hpadded hzero (fits64_integer hwhole hlow hhigh)
    have hrender : (Value.number (.integer numeral.integer) : Value φ).render = String.ofList numeral.text :=
      congrArg String.ofList hwrite
    rw [value_of_number hread]
    cases escape with
    | true => exact (congrArg Html.escape hrender).trans escape_text
    | false => exact hrender

/-- The value of a numeral of up to fifteen digits counts as false exactly if it denotes zero and is
not padded. -/
theorem isTruthy_value (hfew : (numeral.whole ++ numeral.places).length ≤ 15) :
    ((Literal.number (String.ofList numeral.text)).value : Value φ).isTruthy =
      !decide (numeral.value = 0 ∧ ¬numeral.Padded) := by
  by_cases hpadded : numeral.Padded
  · have hne : String.ofList numeral.text ≠ "" := by
      intro heq
      have htext := congrArg String.toList heq
      rw [String.toList_ofList] at htext
      exact numeral.isName_text.1 htext
    rw [value_of_padded hpadded, decide_eq_false fun h => h.2 hpadded]
    exact bne_iff_ne.2 hne
  · obtain ⟨number, hread, hiff⟩ := exists_ofNumeral hpadded hfew
    have hfalse : number.isZero = decide (numeral.value = 0 ∧ ¬numeral.Padded) := by
      rw [Bool.eq_iff_iff, decide_eq_true_iff, hiff, and_iff_left hpadded]
    rw [value_of_number hread, ← hfalse]
    rfl

end Numeral

/-! ### Tags of numerals -/

variable [Callable φ]

theorem Template.compile_numeral (numeral : Numeral) {kind : TagKind} (hkind : kind = .escaped ∨ kind = .unescaped)
    (options : CompileOptions) :
    Template.compile (String.ofList (Segment.tag kind numeral.text).raw) options =
      .ok ⟨[.literal (.number (String.ofList numeral.text)) (kind = .escaped)], options⟩ := by
  obtain ⟨place, hparse⟩ := numeral.parse_tag hkind
  exact Template.compile_of_parse hparse options

theorem Template.run_literal (host : Host φ σ) (environment : Environment φ) (options : CompileOptions) (limit : Nat)
    (literal : Literal) (escape : Bool) (context : Value φ) (data : Option (Table (Value φ))) :
    Template.run host environment (limit + 1) ⟨[.literal literal escape], options⟩ context data =
      pure ((literal.value : Value φ).write escape) :=
  Renderer.ops_singleton ⟨host, environment, options, Template.run host environment limit⟩
    (options.root context data) (.literal literal escape)

/-- **Whole numerals are written as they are.** Take a whole numeral other than minus zero that
denotes a number of 64 bits, with or without a sign, or has a superfluous zero in front. Between two
braces or three it is a template, under all options, and wherever the template is rendered the
output is the numeral. -/
theorem render_wholeNumeral {numeral : Numeral} (hwhole : numeral.fraction = none)
    (hzero : numeral.text ≠ ['-', '0'])
    (hrange : numeral.Padded ∨ -2 ^ 63 ≤ numeral.value ∧ numeral.value ≤ 2 ^ 64 - 1) (options : CompileOptions) :
    ∃ escaped unescaped,
      Template.compile ("\x7b\x7b" ++ String.ofList numeral.text ++ "\x7d\x7d") options = .ok escaped ∧
      Template.compile ("\x7b\x7b\x7b" ++ String.ofList numeral.text ++ "\x7d\x7d\x7d") options = .ok unescaped ∧
      ∀ template ∈ [escaped, unescaped], ∀ (context : Value φ) (environment : Environment φ),
        template.render context environment = .done (String.ofList numeral.text) ∧
        ∀ (host : Host φ σ) limit data,
          template.run host environment (limit + 1) context data = pure (String.ofList numeral.text) := by
  have hescaped : "\x7b\x7b" ++ String.ofList numeral.text ++ "\x7d\x7d" =
      String.ofList (Segment.tag .escaped numeral.text).raw := by
    apply String.toList_inj.1
    simp [Segment.raw, TagKind.opener, TagKind.marker, TagKind.closer]
  have hunescaped : "\x7b\x7b\x7b" ++ String.ofList numeral.text ++ "\x7d\x7d\x7d" =
      String.ofList (Segment.tag .unescaped numeral.text).raw := by
    apply String.toList_inj.1
    simp [Segment.raw, TagKind.opener, TagKind.marker, TagKind.closer]
  have hwrite := fun escape => Numeral.write_value (φ := φ) hwhole hzero hrange escape
  rw [hescaped, hunescaped]
  refine ⟨_, _, Template.compile_numeral numeral (.inl rfl) options,
    Template.compile_numeral numeral (.inr rfl) options, ?_⟩
  intro template htemplate context environment
  obtain ⟨escape, rfl⟩ : ∃ escape, template =
      ⟨[.literal (.number (String.ofList numeral.text)) escape], options⟩ := by
    rcases List.mem_pair.1 htemplate with rfl | rfl
    · exact ⟨_, rfl⟩
    · exact ⟨_, rfl⟩
  constructor
  · have hrun := Template.run_literal .plain environment options 999999 (.number (String.ofList numeral.text)) escape
      context environment.data
    rw [hwrite] at hrun
    exact congrArg Prod.fst (congrFun hrun ())
  · intro host limit data
    rw [Template.run_literal, hwrite]

/-- The least and the greatest whole number of 64 bits. -/
theorem render_wholeNumeral_limits :
    ∃ least greatest,
      Template.compile "\x7b\x7b-9223372036854775808\x7d\x7d" {} = .ok least ∧
      Template.compile "\x7b\x7b\x7b18446744073709551615\x7d\x7d\x7d" {} = .ok greatest ∧
      ∀ context : Value Empty,
        least.render context {} = .done "-9223372036854775808" ∧
        greatest.render context {} = .done "18446744073709551615" := by
  let least : Numeral := ⟨true, "9223372036854775808".toList, none, by decide, nofun⟩
  let greatest : Numeral := ⟨false, "18446744073709551615".toList, none, by decide, nofun⟩
  have hleast : least.integer = -9223372036854775808 := by decide
  have hgreatest : greatest.integer = 18446744073709551615 := by decide
  have hleastRange : -2 ^ 63 ≤ least.value ∧ least.value ≤ 2 ^ 64 - 1 := by
    rw [Numeral.value_eq_integer rfl, hleast]
    norm_num
  have hgreatestRange : -2 ^ 63 ≤ greatest.value ∧ greatest.value ≤ 2 ^ 64 - 1 := by
    rw [Numeral.value_eq_integer rfl, hgreatest]
    norm_num
  obtain ⟨first, _, hfirst, -, hleastRender⟩ :=
    render_wholeNumeral (φ := Empty) (σ := Unit) rfl (by decide) (.inr hleastRange) {}
  obtain ⟨_, second, -, hsecond, hgreatestRender⟩ :=
    render_wholeNumeral (φ := Empty) (σ := Unit) rfl (by decide) (.inr hgreatestRange) {}
  refine ⟨first, second, hfirst, hsecond, fun context => ⟨?_, ?_⟩⟩
  · exact (hleastRender first (by simp) context {}).1
  · exact (hgreatestRender second (by simp) context {}).1

/-! ### Conditions on numerals -/

namespace Environment

variable {environment : Environment φ} {options : CompileOptions}
  (hknown : options.knownHelpersOnly = true → options.isKnown "if" = true)
  (hfind : environment.helpers.find? "if" = some (.builtin .ifHelper))

include hknown hfind

theorem node_if_literal (limit : Nat) (scope : Scope φ) (literal : Literal) (span : Span)
    (program inverse : List Node) :
    ((environment.interpreter options limit).node scope
        (Builtin.ifHelper.block (.literal literal) span program (some inverse)) : Run σ String) =
      (environment.interpreter options limit).nodes (scope.enter none none)
        (if (literal.value : Value φ).isTruthy then program else inverse) := by
  have hparam : (environment.interpreter options limit : Interpreter φ σ).param scope (.literal literal) =
      literal.value := rfl
  rw [Builtin.block, Interpreter.node_block, ← Interpreter.bodies, Interpreter.block]
  simp only [Interpreter.tag, Builtin.name, meaning_registered hknown hfind, hparam, observe_eq, pure_bind,
    Helper.run, Builtin.run, List.headD_cons, Interpreter.perform_map, bind_assoc, Value.render, bind_pure]
  exact perform_choice _

theorem ops_if_numeral {numeral : Numeral} (hfew : (numeral.whole ++ numeral.places).length ≤ 15) (limit : Nat)
    (scope : Scope φ) (span : Span) (program inverse : List Node) :
    let renderer : Renderer φ Unit := ⟨.plain, environment, options, Template.run .plain environment limit⟩
    let condition : Expr := .literal (.number (String.ofList numeral.text))
    renderer.ops scope
        (compileNodes options [Builtin.ifHelper.block condition span program (some inverse)]) =
      renderer.ops (scope.enter none none)
        (compileNodes options (if numeral.value = 0 ∧ ¬numeral.Padded then inverse else program)) := by
  intro renderer condition
  have hchosen : (if ((Literal.number (String.ofList numeral.text)).value : Value φ).isTruthy then program
      else inverse) = if numeral.value = 0 ∧ ¬numeral.Padded then inverse else program := by
    rw [Numeral.isTruthy_value hfew]
    by_cases hfalse : numeral.value = 0 ∧ ¬numeral.Padded
    · rw [decide_eq_true hfalse, if_pos hfalse]
      rfl
    · rw [decide_eq_false hfalse, if_neg hfalse]
      rfl
  have hblock := renderer.ops_compileNodes scope [Builtin.ifHelper.block condition span program (some inverse)]
  rw [Interpreter.nodes_singleton] at hblock
  have hbody := renderer.ops_compileNodes (scope.enter none none)
    (if numeral.value = 0 ∧ ¬numeral.Padded then inverse else program)
  have hnode := node_if_literal (σ := Unit) hknown hfind limit scope (.number (String.ofList numeral.text)) span
    program inverse
  rw [hchosen] at hnode
  exact (hblock.trans hnode).trans hbody.symm

/-- **Conditions on numerals.** Take a numeral of up to fifteen digits. Without quotes it is read as
a number as it is written. Where `if` calls the helper of the library, a condition on it renders its
inverse if the numeral denotes zero and has no superfluous zero in front, and its main part
otherwise, with the current context once more. That is so wherever the block stands and whatever its
two parts are, and it is so for the template that is written as the block around two sources that
parse, unless one of them ends with a brace. -/
theorem render_if_numeral {numeral : Numeral} (hfew : (numeral.whole ++ numeral.places).length ≤ 15) :
    let word := String.ofList numeral.text
    let chosen (program inverse : List Node) := if numeral.value = 0 ∧ ¬numeral.Padded then inverse else program
    let renderer (limit : Nat) : Renderer φ Unit :=
      ⟨.plain, environment, options, Template.run .plain environment limit⟩
    (∀ place, Expr.ofWord ⟨none, word, false, place⟩ = .ok (.literal (.number word))) ∧
    (∀ limit scope span program inverse,
      (renderer limit).ops scope
          (compileNodes options [Builtin.ifHelper.block (.literal (.number word)) span program (some inverse)]) =
        (renderer limit).ops (scope.enter none none) (compileNodes options (chosen program inverse))) ∧
    ∀ first second program inverse, parse first = .ok program → parse second = .ok inverse →
      first.toList.getLast? ≠ some '{' → second.toList.getLast? ≠ some '{' →
      ∃ template,
        Template.compile ("\x7b\x7b#if " ++ word ++ "\x7d\x7d" ++ first ++ "\x7b\x7belse\x7d\x7d" ++ second ++
          "\x7b\x7b/if\x7d\x7d") options = .ok template ∧
        ∀ limit context data,
          template.run .plain environment (limit + 1) context data =
            (renderer limit).ops ((options.root context data).enter none none)
              (compileNodes options (chosen program inverse)) := by
  intro word chosen renderer
  have hblock := ops_if_numeral hknown hfind hfew
  refine ⟨numeral.ofWord, hblock, ?_⟩
  intro first second program inverse hfirst hsecond hfirstBrace hsecondBrace
  obtain ⟨nodes, span, hparse, hsame⟩ :=
    numeral.parse_block helperName_if (by decide) hfirst hsecond hfirstBrace hsecondBrace
  have hsource :
      "\x7b\x7b#if " ++ word ++ "\x7d\x7d" ++ first ++ "\x7b\x7belse\x7d\x7d" ++ second ++ "\x7b\x7b/if\x7d\x7d" =
      "\x7b\x7b#" ++ String.ofList ['i', 'f'] ++ " " ++ word ++ "\x7d\x7d" ++ first ++ "\x7b\x7belse\x7d\x7d" ++
        second ++ "\x7b\x7b/" ++ String.ofList ['i', 'f'] ++ "\x7d\x7d" := by
    apply String.toList_inj.1
    simp
  have hops : compileNodes options nodes =
      compileNodes options [Builtin.ifHelper.block (.literal (.number word)) span program (some inverse)] := by
    rw [← compileNodes_allUnplaced options nodes, hsame, compileNodes_allUnplaced]
    rfl
  rw [hsource]
  refine ⟨_, Template.compile_of_parse hparse options, fun limit context data => ?_⟩
  rw [hops]
  exact hblock limit (options.root context data) span program inverse

omit [Callable φ] hknown hfind in
/-- A fraction that denotes zero, with a sign. -/
theorem render_if_numeral_zero :
    ∃ template,
      Template.compile "\x7b\x7b#if -0.0\x7d\x7dA\x7b\x7belse\x7d\x7dB\x7b\x7b/if\x7d\x7d" {} = .ok template ∧
      ∀ limit (context : Value Empty) data, template.run .plain {} (limit + 1) context data = pure "B" := by
  let zero : Numeral := ⟨true, ['0'], some ['0'], isDigits_zero, fun _ h => Option.some.inj h ▸ isDigits_zero⟩
  have hzero : zero.value = 0 ∧ ¬zero.Padded := ⟨Numeral.value_eq_zero_iff.2 (by decide), by decide⟩
  have hfirst : parse "A" = .ok [.content "A"] := rfl
  have hsecond : parse "B" = .ok [.content "B"] := rfl
  obtain ⟨-, -, hrender⟩ := @render_if_numeral Empty _ {} {} nofun rfl zero (by decide)
  obtain ⟨template, htemplate, hrun⟩ := hrender _ _ _ _ hfirst hsecond (by decide) (by decide)
  refine ⟨template, htemplate, fun limit context data => ?_⟩
  have hops := hrun limit context data
  simp only [if_pos hzero] at hops
  exact hops

omit [Callable φ] hknown hfind in
/-- A zero behind another zero denotes zero, but the condition holds. -/
theorem if_numeral_padded :
    ∃ numeral : Numeral, numeral.text = ['0', '0'] ∧ numeral.value = 0 ∧
      (numeral.whole ++ numeral.places).length ≤ 15 ∧
      ∃ template,
        Template.compile "\x7b\x7b#if 00\x7d\x7dA\x7b\x7belse\x7d\x7dB\x7b\x7b/if\x7d\x7d" {} = .ok template ∧
        template.render (.null : Value Empty) {} = .done "A" := by
  refine ⟨⟨false, ['0', '0'], none, by decide, nofun⟩, rfl, ?_, by decide, _, rfl, ?_⟩
  · exact Numeral.value_eq_zero_iff.2 (by decide)
  · decide +kernel

end Environment

end Stencil
