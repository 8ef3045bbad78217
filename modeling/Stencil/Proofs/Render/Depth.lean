import Stencil.Demo.Page
import Stencil.Proofs.Render.Inclusion
import Stencil.Proofs.Render.Termination
import Stencil.Proofs.Table

/-!
# How deeply rendering nests

To render operations is to render more of them inside: the bodies of a block, from within the helper
that asks for them, and the templates of partials. Between one row of operations and the next inside
it there is a fixed number of calls. So how deeply rendering nests is how many rows are rendered
inside one another. A row has at most as many inside it as its blocks are nested, and those of the
partials that it leads to. If no partial comes up again inside itself, each counts once, and that
gives a limit that neither the context nor the helpers can exceed.
-/

namespace Stencil

variable {φ σ τ : Type}

/-! ### The shape of operations -/

mutual

/-- How many rows of operations an operation has inside one another. -/
def Op.height : Op → Nat
  | .block _ program none => Op.allHeight program
  | .block _ program (some inverse) => max (Op.allHeight program) (Op.allHeight inverse)
  | _ => 0

/-- How many rows of operations there are inside one another, the given one among them. -/
def Op.allHeight : List Op → Nat
  | [] => 1
  | next :: rest => max (next.height + 1) (Op.allHeight rest)

end

mutual

def Op.names : Op → List String
  | .block _ program none => Op.allNames program
  | .block _ program (some inverse) => Op.allNames program ++ Op.allNames inverse
  | .inclusion name _ => [name]
  | _ => []

def Op.allNames : List Op → List String
  | [] => []
  | next :: rest => next.names ++ Op.allNames rest

end

namespace Op

variable {op : Op} {ops : List Op}

theorem allHeight_pos (ops : List Op) : 0 < allHeight ops := by
  induction ops with
  | nil => exact Nat.one_pos
  | cons next rest ih =>
    rw [allHeight]
    exact Nat.lt_of_lt_of_le ih (Nat.le_max_right _ _)

theorem height_lt_of_mem (h : op ∈ ops) : op.height < allHeight ops := by
  induction ops with
  | nil => cases h
  | cons next rest ih =>
    rw [allHeight]
    cases h with
    | head => exact Nat.le_max_left _ _
    | tail _ hrest => exact Nat.lt_of_lt_of_le (ih hrest) (Nat.le_max_right _ _)

theorem mem_allNames_of_mem {name : String} (h : op ∈ ops) (hname : name ∈ op.names) : name ∈ allNames ops := by
  induction ops with
  | nil => cases h
  | cons next rest ih =>
    rw [allNames, List.mem_append]
    cases h with
    | head => exact .inl hname
    | tail _ hrest => exact .inr (ih hrest)

def bodies : Op → List (List Op)
  | .block _ program inverse => program :: inverse.toList
  | _ => []

theorem allHeight_le_of_mem_bodies {body : List Op} (h : body ∈ op.bodies) : allHeight body ≤ op.height := by
  match op with
  | .block call program none =>
    rw [List.mem_singleton.1 h, height]
  | .block call program (some inverse) =>
    rw [height]
    rcases List.mem_cons.1 h with rfl | h
    · exact Nat.le_max_left _ _
    · rw [List.mem_singleton.1 h]
      exact Nat.le_max_right _ _

theorem mem_names_of_mem_bodies {body : List Op} {name : String} (h : body ∈ op.bodies)
    (hname : name ∈ allNames body) : name ∈ op.names := by
  match op with
  | .block call program none =>
    rw [List.mem_singleton.1 h] at hname
    rwa [names]
  | .block call program (some inverse) =>
    rw [names, List.mem_append]
    rcases List.mem_cons.1 h with rfl | h
    · exact .inl hname
    · rw [List.mem_singleton.1 h] at hname
      exact .inr hname

theorem allNames_prepend (op : Op) (rest : List Op) : allNames (op.prepend rest) = op.names ++ allNames rest := by
  rw [Op.prepend.eq_def]
  split
  · simp only [allNames, names, List.nil_append]
  · rw [allNames]

end Op

mutual

theorem Node.within_of_mem_names {options : CompileOptions} {name : String} (node : Node) {op : Op}
    (hop : node.compile options = some op) (hname : name ∈ op.names) :
    ∃ context, Node.Within (.inclusion name context) node := by
  match node with
  | .content text =>
    simp only [Node.compile, Option.some.injEq] at hop
    subst hop
    cases hname
  | .comment text => cases hop
  | .mustache call escaped =>
    rw [Node.compile] at hop
    split at hop <;> obtain rfl := Option.some.inj hop
    · cases hname
    · cases hname
  | .block call program none =>
    rw [Node.compile] at hop
    split at hop
    · cases hop
    · obtain rfl := Option.some.inj hop
      rw [Op.names] at hname
      obtain ⟨context, inner, hinner, hwithin⟩ := Node.among_of_mem_allNames program hname
      exact ⟨context, .program hinner hwithin⟩
  | .block call program (some inverse) =>
    rw [Node.compile] at hop
    split at hop
    · cases hop
    · obtain rfl := Option.some.inj hop
      rw [Op.names, List.mem_append] at hname
      rcases hname with hname | hname
      · obtain ⟨context, inner, hinner, hwithin⟩ := Node.among_of_mem_allNames program hname
        exact ⟨context, .program hinner hwithin⟩
      · obtain ⟨context, inner, hinner, hwithin⟩ := Node.among_of_mem_allNames inverse hname
        exact ⟨context, .inverse hinner hwithin⟩
  | .inclusion other context =>
    rw [Node.compile] at hop
    obtain rfl := Option.some.inj hop
    rw [Op.names, List.mem_singleton] at hname
    subst hname
    exact ⟨context, .self⟩

theorem Node.among_of_mem_allNames {options : CompileOptions} {name : String} (nodes : List Node)
    (hname : name ∈ Op.allNames (compileNodes options nodes)) :
    ∃ context, Node.Among (.inclusion name context) nodes := by
  match nodes with
  | [] => cases hname
  | node :: rest =>
    rw [compileNodes] at hname
    cases hop : node.compile options with
    | none =>
      rw [hop] at hname
      obtain ⟨context, hamong⟩ := Node.among_of_mem_allNames rest hname
      exact ⟨context, hamong.cons node⟩
    | some op =>
      rw [hop] at hname
      simp only [Op.allNames_prepend, List.mem_append] at hname
      rcases hname with hname | hname
      · obtain ⟨context, hwithin⟩ := Node.within_of_mem_names node hop hname
        exact ⟨context, node, List.mem_cons_self, hwithin⟩
      · obtain ⟨context, hamong⟩ := Node.among_of_mem_allNames rest hname
        exact ⟨context, hamong.cons node⟩

end

/-! ### Rendering with a limit on the nesting -/

/-- What an operation renders to, if its bodies are rendered as given. -/
def Renderer.opAround [Callable φ] (renderer : Renderer φ σ) (inside : List Op → Body φ σ) (scope : Scope φ) :
    Op → Run σ String
  | .block call program inverse => do
    return (← renderer.block call scope ⟨some (inside program), inverse.map inside⟩).render
  | op => renderer.op scope op

def Renderer.row [Callable φ] (renderer : Renderer φ σ) (inside : List Op → Body φ σ) (scope : Scope φ) :
    List Op → Run σ String
  | [] => pure ""
  | next :: rest => do
    let text ← renderer.opAround inside scope next
    return text ++ (← row renderer inside scope rest)

/-- Renders operations with at most so many rows of operations inside one another. -/
def opsWithin [Callable φ] (host : Host φ σ) (environment : Environment φ) :
    Nat → CompileOptions → List Op → Body φ σ
  | 0, _, _, _ => Run.exhausted
  | depth + 1, options, ops, scope =>
    Renderer.row ⟨host, environment, options, fun template context data =>
        opsWithin host environment depth template.options template.ops (template.options.root context data)⟩
      (opsWithin host environment depth options) scope ops

/-- Renders a template with at most so many rows of operations inside one another. -/
def Template.runWithin [Callable φ] (host : Host φ σ) (environment : Environment φ) (depth : Nat)
    (template : Template) (context : Value φ) (data : Option (Table (Value φ))) : Run σ String :=
  opsWithin host environment depth template.options template.ops (template.options.root context data)

/-- The same runs, which are not exhausted. -/
def Run.completion : Run.Congruence σ σ where
  Related run run' := ∀ state, run state = run' state ∧ (run state).1 ≠ .exhausted
  pure_related _ := fun _ => ⟨rfl, nofun⟩
  fail_related _ := fun _ => ⟨rfl, nofun⟩
  bind_related := by
    intro α β run run' next next' hrun hnext state
    obtain ⟨heq, hend⟩ := hrun state
    rw [Run.bind_apply, Run.bind_apply, ← heq]
    rcases hresult : run state with ⟨result | error | _, after⟩
    · exact hnext result after
    · exact ⟨rfl, nofun⟩
    · rw [hresult] at hend
      exact absurd rfl hend
  attempt_related := by
    intro α run run' hrun state
    obtain ⟨heq, hend⟩ := hrun state
    rw [Run.attempt, Run.attempt, ← heq]
    rcases hresult : run state with ⟨result | error | _, after⟩
    · exact ⟨rfl, nofun⟩
    · exact ⟨rfl, nofun⟩
    · rw [hresult] at hend
      exact absurd rfl hend

/-- A row with related bodies and related partials is related to the row that renders its bodies by
itself. -/
theorem Renderer.Linked.row [Callable φ] {relation : Run.Congruence σ τ} {left : Renderer φ σ}
    {right : Renderer φ τ} (h : left.Linked relation right) {inside : List Op → Body φ σ} {ops : List Op}
    (hbodies : ∀ op ∈ ops, ∀ body ∈ op.bodies, ∀ scope,
      relation.Related (inside body scope) (right.ops scope body))
    (hinclusion : ∀ name context, Op.inclusion name context ∈ ops → ∀ scope,
      relation.Related (left.inclusion name context scope) (right.inclusion name context scope))
    (scope : Scope φ) : relation.Related (left.row inside scope ops) (right.ops scope ops) := by
  induction ops with
  | nil =>
    rw [Renderer.row, Renderer.ops]
    exact relation.pure_related ""
  | cons next rest ih =>
    have hrest := ih (fun op hop => hbodies op (.tail _ hop)) fun name context hop =>
      hinclusion name context (.tail _ hop)
    have hbodies := hbodies next (.head _)
    rw [Renderer.row, Renderer.ops]
    refine relation.bind_related ?_ fun text => relation.map_related hrest _
    match next with
    | .content text =>
      rw [opAround, Renderer.op, Renderer.op]
      · exact relation.pure_related text
      · nofun
    | .literal literal escape =>
      rw [opAround, Renderer.op, Renderer.op]
      · exact relation.pure_related _
      · nofun
    | .expression call escape =>
      rw [opAround, Renderer.op, Renderer.op]
      · exact relation.map_related (h.expression scope call) _
      · nofun
    | .block call program none =>
      rw [opAround, Renderer.op]
      refine relation.map_related (h.block scope (.some ?_ fun _ => .none) call) _
      exact fun request => hbodies program (.head _) _
    | .block call program (some inverse) =>
      rw [opAround, Renderer.op]
      refine relation.map_related (h.block scope (.some ?_ fun _ => .some ?_) call) _
      · exact fun request => hbodies program (.head _) _
      · exact hbodies inverse (.tail _ (.head _)) _
    | .inclusion name context =>
      rw [opAround, Renderer.op, Renderer.op]
      · exact hinclusion name context (.head _) scope
      · nofun

/-! ### Partials -/

def ParsedPartial.height (included : ParsedPartial φ) : Nat :=
  max ((included.template? true).elim 0 (Op.allHeight ·.compile.ops))
    ((included.template? false).elim 0 (Op.allHeight ·.compile.ops))

theorem ParsedPartial.allHeight_le {included : ParsedPartial φ} {trackData : Bool} {template : ParsedTemplate}
    (h : included.template? trackData = some template) :
    Op.allHeight template.compile.ops ≤ included.height := by
  rw [height]
  cases trackData with
  | true =>
    rw [h]
    exact Nat.le_max_left _ _
  | false =>
    rw [h]
    exact Nat.le_max_right _ _

/-- The heights of all partials together, but for those of the given names. -/
def heightsBeyond (visited : List String) : Table (ParsedPartial φ) → Nat
  | [] => 0
  | entry :: rest => (if entry.1 ∈ visited then 0 else entry.2.height) + heightsBeyond visited rest

theorem ite_mem_cons_le (name other : String) (visited : List String) (height : Nat) :
    (if other ∈ name :: visited then 0 else height) ≤ if other ∈ visited then 0 else height := by
  by_cases hother : other ∈ visited
  · rw [if_pos (List.mem_cons_of_mem _ hother)]
    exact Nat.zero_le _
  · rw [if_neg hother]
    split
    · exact Nat.zero_le _
    · exact Nat.le_refl _

theorem heightsBeyond_cons_le (name : String) (visited : List String) (partials : Table (ParsedPartial φ)) :
    heightsBeyond (name :: visited) partials ≤ heightsBeyond visited partials := by
  induction partials with
  | nil => exact Nat.le_refl 0
  | cons entry rest ih => exact Nat.add_le_add (ite_mem_cons_le name entry.1 visited _) ih

/-- What a partial adds to the nesting is taken from what the others may still add. -/
theorem height_add_heightsBeyond_le {name : String} {visited : List String} {included : ParsedPartial φ}
    {partials : Table (ParsedPartial φ)} (hmem : (name, included) ∈ partials) (hname : name ∉ visited) :
    included.height + heightsBeyond (name :: visited) partials ≤ heightsBeyond visited partials := by
  induction partials with
  | nil => cases hmem
  | cons entry rest ih =>
    rw [heightsBeyond, heightsBeyond]
    cases hmem with
    | head =>
      rw [if_pos (.head _), if_neg hname, Nat.zero_add]
      exact Nat.add_le_add_left (heightsBeyond_cons_le name visited rest) _
    | tail _ hmem =>
      have hentry := ite_mem_cons_le name entry.1 visited entry.2.height
      have hrest := ih hmem
      omega

/-- The rows of a template and of all partials, none counted twice. -/
def ParsedTemplate.depthBound (template : ParsedTemplate) (partials : Table (ParsedPartial φ)) : Nat :=
  Op.allHeight template.compile.ops + heightsBeyond [] partials

/-- Operations lead to no partial that was visited, and to none that comes up again inside
itself. -/
def ParsedEnvironment.Unwinds (environment : ParsedEnvironment φ) (visited : List String) (ops : List Op) : Prop :=
  ∀ first ∈ Op.allNames ops, ∀ name, Relation.ReflTransGen environment.Includes first name →
    name ∉ visited ∧ ¬Relation.TransGen environment.Includes name name

section

variable {environment : ParsedEnvironment φ} {visited : List String} {ops : List Op} {name : String}
  {included : ParsedTemplate}

theorem ParsedEnvironment.Unwinds.of_mem_bodies (h : environment.Unwinds visited ops) {op : Op} (hop : op ∈ ops)
    {body : List Op} (hbody : body ∈ op.bodies) : environment.Unwinds visited body := by
  intro first hfirst
  exact h first (Op.mem_allNames_of_mem hop (Op.mem_names_of_mem_bodies hbody hfirst))

theorem ParsedEnvironment.Unwinds.of_provides (h : environment.Unwinds visited ops) (hname : name ∈ Op.allNames ops)
    (hprovides : environment.Provides name included) :
    environment.Unwinds (name :: visited) included.compile.ops := by
  intro first hfirst other hother
  obtain ⟨context, hamong⟩ := Node.among_of_mem_allNames included.nodes hfirst
  have hbehind : Relation.TransGen environment.Includes name other :=
    Relation.TransGen.head' ⟨included, context, hprovides, hamong⟩ hother
  obtain ⟨hunvisited, hacyclic⟩ := h name hname other hbehind.to_reflTransGen
  refine ⟨fun hvisited => ?_, hacyclic⟩
  rcases List.mem_cons.1 hvisited with rfl | hvisited
  · exact hacyclic hbehind
  · exact hunvisited hvisited

theorem ParsedEnvironment.Provides.height_add_le (h : environment.Provides name included) (hname : name ∉ visited) :
    Op.allHeight included.compile.ops + heightsBeyond (name :: visited) environment.partials ≤
      heightsBeyond visited environment.partials := by
  obtain ⟨found, trackData, hfound, htemplate⟩ := h
  have hheight := ParsedPartial.allHeight_le htemplate
  have hroom := height_add_heightsBeyond_le (Table.mem_of_find? hfound) hname
  omega

end

variable [Callable φ]

/-- A limit on the nesting that leaves room for the rows of operations and for all partials that
were not visited makes no difference. -/
theorem opsWithin_completion (note : Event φ → σ → σ) (environment : ParsedEnvironment φ)
    {options : CompileOptions} {ops : List Op} {visited : List String} {depth limit : Nat}
    (hunwinds : environment.Unwinds visited ops)
    (hdepth : Op.allHeight ops + heightsBeyond visited environment.partials ≤ depth) (hlimit : depth ≤ limit)
    (scope : Scope φ) :
    Run.completion.Related (opsWithin (.noting note) environment.compile depth options ops scope)
      (Renderer.ops ⟨.noting note, environment.compile, options,
        Template.run (.noting note) environment.compile limit⟩ scope ops) := by
  induction depth generalizing options ops visited limit scope with
  | zero =>
    have hpos := Op.allHeight_pos ops
    omega
  | succ depth ih =>
    obtain ⟨limit, rfl⟩ : ∃ before, limit = before + 1 := ⟨limit - 1, by omega⟩
    have hlinked : Renderer.Linked Run.completion
        ⟨.noting note, environment.compile, options, fun template context data =>
          opsWithin (.noting note) environment.compile depth template.options template.ops
            (template.options.root context data)⟩
        ⟨.noting note, environment.compile, options,
          Template.run (.noting note) environment.compile (limit + 1)⟩ :=
      ⟨rfl, rfl, fun _ _ => ⟨rfl, nofun⟩⟩
    rw [opsWithin]
    refine hlinked.row ?_ ?_ scope
    · intro op hop body hbody scope
      have hheight := Nat.lt_of_le_of_lt (Op.allHeight_le_of_mem_bodies hbody) (Op.height_lt_of_mem hop)
      exact ih (hunwinds.of_mem_bodies hop hbody) (by omega) (by omega) scope
    · intro name context hop scope
      have hname : name ∈ Op.allNames ops :=
        Op.mem_allNames_of_mem hop (by simp only [Op.names, List.mem_singleton])
      rw [inclusion_compile, inclusion_compile]
      rcases environment.renderPartial_cases note options.data name with
        ⟨-, hrender⟩ | ⟨_, _, -, -, hrender⟩ | ⟨call, -, hrender⟩ | ⟨included, hprovides, -, hrender⟩
      · rw [hrender, hrender]
        exact Run.completion.fail_related _
      · rw [hrender, hrender]
        exact Run.completion.fail_related _
      · rw [hrender, hrender]
        intro state
        exact (Run.completion.ofExcept_related _) _
      · rw [hrender, hrender]
        have hroom := hprovides.height_add_le (hunwinds name hname name .refl).1
        have hpos := Op.allHeight_pos ops
        exact ih (hunwinds.of_provides hname hprovides) (by omega) (by omega) _

/-- **Only partials that come up inside themselves render without end.** Take a template that leads
to no partial that includes itself, however indirectly. Whatever the context, the data frame and the
helpers are, rendering never has more rows of operations inside one another than the bound of the
template, which depends on the partials alone: with that limit on the nesting it does the same as
without. So it comes to an end. -/
theorem render_terminates (template : ParsedTemplate) (environment : ParsedEnvironment φ)
    (hacyclic : ∀ name, environment.Reaches template.nodes name →
      ¬Relation.TransGen environment.Includes name name) :
    (∀ (note : Event φ → σ → σ) (depth limit : Nat), template.depthBound environment.partials ≤ depth →
      depth < limit → ∀ context data state,
        template.compile.runWithin (.noting note) environment.compile depth context data state =
            template.compile.run (.noting note) environment.compile limit context data state ∧
          (template.compile.run (.noting note) environment.compile limit context data state).1 ≠ .exhausted) ∧
    (∀ context, ∃ outcome, template.compile.Yields context environment.compile outcome) ∧
    (template.depthBound environment.partials < Template.nestingLimit → ∀ context,
      template.compile.render context environment.compile ≠ .exhausted) := by
  have hunwinds : environment.Unwinds [] template.compile.ops := by
    intro first hfirst name hname
    obtain ⟨context, hamong⟩ := Node.among_of_mem_allNames template.nodes hfirst
    exact ⟨List.not_mem_nil, hacyclic name ⟨first, context, hamong, hname⟩⟩
  have hrun : ∀ {τ : Type} (note : Event φ → τ → τ) (depth limit : Nat),
      template.depthBound environment.partials ≤ depth → depth < limit → ∀ context data state,
        template.compile.runWithin (.noting note) environment.compile depth context data state =
            template.compile.run (.noting note) environment.compile limit context data state ∧
          (template.compile.run (.noting note) environment.compile limit context data state).1 ≠ .exhausted := by
    intro τ note depth limit hdepth hlimit context data state
    obtain ⟨limit, rfl⟩ : ∃ before, limit = before + 1 := ⟨limit - 1, by omega⟩
    obtain ⟨heq, hend⟩ := opsWithin_completion note environment hunwinds hdepth (Nat.le_of_lt_succ hlimit)
      (template.options.root context data) state
    rw [heq] at hend
    exact ⟨heq, hend⟩
  refine ⟨hrun, fun context => ?_, fun hbound context => ?_⟩
  · obtain ⟨-, hend⟩ := hrun (fun _ (state : Unit) => state) _ _ (Nat.le_refl _) (Nat.lt_succ_self _) context
      environment.data ()
    exact ⟨_, hend, _, rfl⟩
  · exact (hrun (fun _ (state : Unit) => state) _ _ (Nat.le_refl _) hbound context environment.data ()).2

/-- A list of items, with one partial for the list and one for the items. -/
theorem render_terminates_list :
    let template : ParsedTemplate := ⟨[.inclusion "list" none], {}⟩
    let environment : ParsedEnvironment Empty :=
      { partials := [("item", .source ⟨"\x7b\x7bname\x7d\x7d", 0⟩),
          ("list", .source ⟨"\x7b\x7b#each items\x7d\x7d\x7b\x7b> item\x7d\x7d\x7b\x7b/each\x7d\x7d", 1⟩)] }
    template.depthBound environment.partials = 4 ∧ ∀ context : Value Empty,
      template.compile.runWithin .plain environment.compile 4 context none =
          template.compile.run .plain environment.compile 5 context none ∧
        template.compile.render context environment.compile ≠ .exhausted := by
  intro template environment
  have hbound : template.depthBound environment.partials = 4 := by decide +kernel
  have hrank : ∀ outer inner, environment.Includes outer inner →
      (if inner = "list" then 1 else 0) < if outer = "list" then 1 else 0 := by
    rintro outer inner ⟨parsed, context, ⟨found, trackData, hfound, htemplate⟩, hamong⟩
    have hitem : parse "\x7b\x7bname\x7d\x7d" = .ok
        [.mustache ⟨.path ⟨"name", 0, false, ["name"]⟩, [], [], ⟨2, 6⟩⟩ true] := rfl
    have hlist : parse "\x7b\x7b#each items\x7d\x7d\x7b\x7b> item\x7d\x7d\x7b\x7b/each\x7d\x7d" = .ok
        [.block
          ⟨.path ⟨"each", 0, false, ["each"]⟩, [.path ⟨"items", 0, false, ["items"]⟩], [], ⟨3, 13⟩⟩
          [.inclusion "item" none] none] := rfl
    have hmem := Table.mem_of_find? hfound
    simp only [environment, List.mem_cons, Prod.mk.injEq, List.not_mem_nil, or_false] at hmem
    rcases hmem with ⟨rfl, rfl⟩ | ⟨rfl, rfl⟩
    · rw [ParsedPartial.template?, hitem] at htemplate
      obtain rfl := Option.some.inj htemplate
      simp [Node.within_iff] at hamong
    · rw [ParsedPartial.template?, hlist] at htemplate
      obtain rfl := Option.some.inj htemplate
      simp only [Node.among_cons_iff, Node.within_iff, reduceCtorEq, Node.inside, Option.getD_none,
        List.append_nil, Node.inclusion.injEq, Node.not_among_nil, or_false, false_or] at hamong
      obtain ⟨rfl, -⟩ := hamong
      decide
  obtain ⟨hrun, -, hrender⟩ := render_terminates (σ := Unit) template environment fun name _ =>
    environment.not_transGen_of_rank (fun name => if name = "list" then 1 else 0) hrank name
  refine ⟨hbound, fun context => ⟨?_, hrender (by rw [hbound]; decide) context⟩⟩
  funext state
  exact (hrun (fun _ state => state) 4 5 (Nat.le_of_eq hbound) (by decide) context none state).1

end Stencil
