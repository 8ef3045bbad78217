import Stencil.Proofs.Markup.Derivation
import Stencil.Proofs.Markup.Paths
import Stencil.Proofs.Table

/-!
# Heads of tags

The head of every tag of a parsed template, at any depth, is a path only if it was read from a text,
and so is whatever else its call holds. A simple path is then written as its only segment, so it
makes no difference whether the path is looked up as it is written or by its segment.
-/

namespace Stencil

namespace Path

theorem segments_of_isSimple {text : List Char} {path : Path} (h : ofText? text = some path)
    (hsimple : path.isSimple = true) : path.segments = [path.text] := by
  obtain ⟨htext, segments, hspelled, hsegments⟩ := ofText_eq_some_iff.1 h
  simp only [isSimple, Bool.and_eq_true, beq_iff_eq, Bool.not_eq_true'] at hsimple
  obtain ⟨⟨hdepth, hthis⟩, hlength⟩ := hsimple
  rw [hsegments, List.length_map] at hlength
  obtain ⟨segment, rfl⟩ := List.length_eq_one_iff.1 hlength
  rw [hdepth, hthis] at hspelled
  cases hspelled with
  | names _ hnames =>
    cases hnames.joined with
    | single => rw [hsegments, htext, List.map_singleton, parents_zero, List.nil_append]
    | cons _ _ hrest => exact absurd rfl hrest.ne_nil

end Path

theorem Expr.exists_text_of_ofWord {word : Word} {path : Path} (h : Expr.ofWord word = .ok (.path path)) :
    ∃ text, Path.ofText? text = some path := by
  simp only [Expr.ofWord] at h
  split_ifs at h
  · cases h
  · cases h
  · cases h
  · cases h
  · split at h
    · next found hfound =>
      obtain rfl : found = path := by simpa using h
      exact ⟨_, hfound⟩
    · cases h

def Call.exprs (call : Call) : List Expr :=
  call.head :: (call.params ++ call.hash.map Prod.snd)

/-- Whatever a call holds was read from a word. -/
theorem Call.exists_word_of_mem_exprs {place : Nat} {body : List Char} {call : Call}
    (h : Call.ofBody place body = .ok call) {expr : Expr} (hexpr : expr ∈ call.exprs) :
    ∃ word, Expr.ofWord word = .ok expr := by
  obtain ⟨first, _, head, -, -, hfirst, hwords, -⟩ := Call.ofBody_eq_ok_iff.1 h
  refine Call.foldlM_addWord_induction
    (motive := fun next => ∀ expr ∈ next.exprs, ∃ word, Expr.ofWord word = .ok expr) ?_ ?_ hwords expr hexpr
  · intro before next word _ hbefore hnext other hother
    obtain ⟨value, hvalue, ⟨key, -, rfl⟩ | ⟨-, -, rfl⟩⟩ := Call.addWord_eq_ok_iff.1 hnext
    · simp only [exprs, List.mem_cons, List.mem_append, List.mem_map] at hother hbefore
      rcases hother with hhead | hparam | ⟨entry, hentry, rfl⟩
      · exact hbefore other (.inl hhead)
      · exact hbefore other (.inr (.inl hparam))
      · rcases Table.mem_of_mem_insert hentry with rfl | hentry
        · exact ⟨word, hvalue⟩
        · exact hbefore _ (.inr (.inr ⟨entry, hentry, rfl⟩))
    · simp only [exprs, List.mem_cons, List.mem_append, List.not_mem_nil, or_false] at hother hbefore
      rcases hother with hhead | (hparam | rfl) | hnamed
      · exact hbefore other (.inl hhead)
      · exact hbefore other (.inr (.inl hparam))
      · exact ⟨word, hvalue⟩
      · exact hbefore other (.inr (.inr hnamed))
  · intro other hother
    obtain rfl := List.mem_singleton.1 hother
    exact ⟨first, hfirst⟩

theorem Call.exists_text_of_mem_params {place : Nat} {body : List Char} {call : Call}
    (h : Call.ofBody place body = .ok call) {path : Path} (hpath : .path path ∈ call.params) :
    ∃ text, Path.ofText? text = some path := by
  obtain ⟨word, hword⟩ :=
    Call.exists_word_of_mem_exprs h (List.mem_cons_of_mem _ (List.mem_append_left _ hpath))
  exact Expr.exists_text_of_ofWord hword

/-- The call of a node that was parsed, at any depth, was read from the body of a tag. -/
theorem exists_ofBody_of_parse {source : String} {nodes : List Node} (h : parse source = .ok nodes) {node : Node}
    (hnode : node.Among nodes) {call : Call} (hcall : node.call? = some call) :
    ∃ place body, Call.ofBody place body = .ok call := by
  obtain ⟨row, -, hdraft⟩ := parseText_eq_ok_iff.1 (parse_eq_ok_iff.1 h)
  obtain ⟨other, hother, hwithin⟩ := hnode
  obtain ⟨_, _, _, -, hmakes⟩ := (Draft.segments_eq_ok_iff_derivation.1 hdraft).exists_makes hother hwithin
  obtain ⟨_, body, -, hbody⟩ := hmakes.exists_body hcall
  exact ⟨_, body, hbody⟩

theorem segments_of_parse {source : String} {nodes : List Node} (h : parse source = .ok nodes) {node : Node}
    (hnode : node.Among nodes) {call : Call} (hcall : node.call? = some call) {path : Path}
    (hhead : call.head = .path path) (hsimple : path.isSimple = true) : path.segments = [path.text] := by
  obtain ⟨_, _, hbody⟩ := exists_ofBody_of_parse h hnode hcall
  obtain ⟨first, _, head, -, -, hfirst, hwords, -⟩ := Call.ofBody_eq_ok_iff.1 hbody
  obtain rfl : call.head = head := (Call.fixed_of_foldlM_addWord hwords).1
  rw [hhead] at hfirst
  obtain ⟨text, htext⟩ := Expr.exists_text_of_ofWord hfirst
  exact Path.segments_of_isSimple htext hsimple

end Stencil
