import Depsolve.Proofs.Graph.Calls
import Depsolve.Proofs.Graph.Reach

/-!
# Walks

A walk looks at the node on top of its stack. Each step uses up an edge, a node or an entry of the
stack (`Walk.remaining`), so a walk comes to its end within its limit. In a graph without cycles, a
node that was met and is not done waits on the stack, with nothing above it but nodes that it leads
to (`Waits`). When it is done in its turn, nothing is left above it, so all that it asks for is done
already: the nodes are done in an order of dependencies (`idxOf_finishOrder_lt`). With cycles or
without, the walks are done with every node (`mem_finishOrder`).
-/

namespace Depsolve.SolutionGraph

open Relation (TransGen)

variable {g : SolutionGraph} {w : Walk} {x y : String} {rest : List String} {n : Nat}

/-- No project leads back to itself. -/
def IsAcyclic (g : SolutionGraph) : Prop :=
  ∀ x, ¬ TransGen g.Leads x x

/-! ## One step -/

theorem step_of_nil (h : w.stack = []) : g.step w = w := by
  rw [step, h]

theorem step_of_done (h : w.stack = x :: rest) (hmet : x ∈ w.met) (hdone : x ∈ w.done) :
    g.step w = { w with stack := rest } := by
  rw [step, h]
  simp [hmet, hdone]

theorem step_of_open (h : w.stack = x :: rest) (hmet : x ∈ w.met) (hdone : x ∉ w.done) :
    g.step w = { w with stack := rest, done := x :: w.done } := by
  rw [step, h]
  simp [hmet, hdone]

/-- What is pushed on the stack when a node is met. -/
def Walk.pushed (g : SolutionGraph) (w : Walk) (x : String) : List String :=
  (g.successors x).filter fun y => ! (x :: w.met).contains y

theorem Walk.mem_pushed : y ∈ w.pushed g x ↔ g.Leads x y ∧ y ≠ x ∧ y ∉ w.met := by
  simp [pushed, Leads]

theorem step_of_new (h : w.stack = x :: rest) (hmet : x ∉ w.met) :
    g.step w = { w with stack := w.pushed g x ++ x :: rest, met := x :: w.met } := by
  rw [step, h]
  simp [hmet, Walk.pushed]

/-- A walk that is not at its end drops a node, is done with it or meets it. -/
theorem step_cases (g : SolutionGraph) (w : Walk) :
    w.stack = [] ∧ g.step w = w ∨ ∃ x rest, w.stack = x :: rest ∧
    (x ∈ w.met ∧ x ∈ w.done ∧ g.step w = { w with stack := rest } ∨
      x ∈ w.met ∧ x ∉ w.done ∧ g.step w = { w with stack := rest, done := x :: w.done } ∨
      x ∉ w.met ∧ g.step w = { w with stack := w.pushed g x ++ x :: rest, met := x :: w.met }) := by
  cases h : w.stack with
  | nil => exact .inl ⟨rfl, step_of_nil h⟩
  | cons x rest =>
    refine .inr ⟨x, rest, rfl, ?_⟩
    by_cases hmet : x ∈ w.met
    · by_cases hdone : x ∈ w.done
      · exact .inl ⟨hmet, hdone, step_of_done h hmet hdone⟩
      · exact .inr (.inl ⟨hmet, hdone, step_of_open h hmet hdone⟩)
    · exact .inr (.inr ⟨hmet, step_of_new h hmet⟩)

theorem walk_succ (g : SolutionGraph) (n : Nat) (w : Walk) :
    g.walk (n + 1) w = g.walk n (g.step w) := by
  cases h : w.stack with
  | nil =>
    rw [step_of_nil h, walk, h, List.isEmpty_nil, if_pos rfl]
    cases n with
    | zero => rfl
    | succ n => rw [walk, h, List.isEmpty_nil, if_pos rfl]
  | cons x rest => rw [walk, h, List.isEmpty_cons, if_neg (by decide)]

/-- What each step preserves is preserved by a walk. -/
theorem walk_induction {P : Walk → Prop} (hstep : ∀ w, P w → P (g.step w)) (n : Nat) (h : P w) :
    P (g.walk n w) := by
  induction n generalizing w with
  | zero => exact h
  | succ n ih =>
    rw [walk_succ]
    exact ih (hstep w h)

/-! ## The end of a walk -/

/-- What is to be looked at and what has been met are nodes of the graph. -/
def Walk.IsInside (g : SolutionGraph) (w : Walk) : Prop :=
  ∀ x, x ∈ w.stack ∨ x ∈ w.met → x ∈ g.roots

theorem IsSound.mem_of_leads (hg : g.IsSound) (h : g.Leads x y) : x ∈ g.roots ∧ y ∈ g.roots := by
  obtain ⟨constraint, he⟩ := leads_iff.1 h
  exact ⟨hg.source_mem _ he, hg.target_mem _ he⟩

theorem Walk.IsInside.step (hg : g.IsSound) (hw : w.IsInside g) : (g.step w).IsInside g := by
  rcases step_cases g w with ⟨-, hstep⟩ |
    ⟨x, rest, hstack, ⟨-, -, hstep⟩ | ⟨-, -, hstep⟩ | ⟨-, hstep⟩⟩ <;>
    rw [hstep]
  · exact hw
  · exact fun y hy => hw y (hy.imp_left fun hrest => hstack ▸ List.mem_cons_of_mem _ hrest)
  · exact fun y hy => hw y (hy.imp_left fun hrest => hstack ▸ List.mem_cons_of_mem _ hrest)
  · have hx : x ∈ g.roots := hw x (.inl (hstack ▸ List.mem_cons_self))
    intro y hy
    rcases hy with hy | hy
    · rcases List.mem_append.1 hy with hy | hy
      · exact (hg.mem_of_leads (Walk.mem_pushed.1 hy).1).2
      · exact hw y (.inl (hstack ▸ hy))
    · rcases List.mem_cons.1 hy with rfl | hy
      · exact hx
      · exact hw y (.inr hy)

/-- The number of nodes that were not met. -/
def unmet (g : SolutionGraph) (met : List String) : Nat :=
  (g.roots.filter fun x => ! met.contains x).length

theorem unmet_cons_lt {met : List String} (hx : x ∈ g.roots) (hmet : x ∉ met) :
    g.unmet (x :: met) < g.unmet met := by
  have hfilter : (g.roots.filter fun y => ! (x :: met).contains y) =
      (g.roots.filter fun y => ! met.contains y).filter fun y => y ≠ x := by
    rw [List.filter_filter]
    congr 1
    funext y
    by_cases hy : y = x <;> simp [hy]
  rw [unmet, unmet, hfilter]
  apply List.length_filter_lt_length_iff_exists.2
  exact ⟨x, List.mem_filter.2 ⟨hx, by simpa using hmet⟩, by simp⟩

/-- What is left of a walk: the entries of its stack, the edges that start at nodes which were not
met, and these nodes. -/
def Walk.remaining (g : SolutionGraph) (w : Walk) : Nat :=
  w.stack.length + g.unseen w.met + g.unmet w.met

theorem Walk.remaining_step_lt (hw : w.IsInside g) (hne : w.stack ≠ []) :
    (g.step w).remaining g < w.remaining g := by
  rcases step_cases g w with ⟨hnil, -⟩ |
    ⟨x, rest, hstack, ⟨-, -, hstep⟩ | ⟨-, -, hstep⟩ | ⟨hmet, hstep⟩⟩
  · exact absurd hnil hne
  · simp only [remaining, hstep, hstack, List.length_cons]
    omega
  · simp only [remaining, hstep, hstack, List.length_cons]
    omega
  · have hx : x ∈ g.roots := hw x (.inl (hstack ▸ List.mem_cons_self))
    have hedges : g.unseen (x :: w.met) + (g.successors x).length = g.unseen w.met :=
      unseen_cons (by simpa using hmet)
    have hpushed : (w.pushed g x).length ≤ (g.successors x).length := List.length_filter_le _ _
    have hunmet := unmet_cons_lt hx hmet
    simp only [remaining, hstep, hstack, List.length_append, List.length_cons]
    omega

theorem walk_stack_eq_nil (hg : g.IsSound) (hw : w.IsInside g) (hn : w.remaining g ≤ n) :
    (g.walk n w).stack = [] := by
  induction n generalizing w with
  | zero =>
    apply List.eq_nil_of_length_eq_zero
    rw [Walk.remaining] at hn
    rw [walk]
    omega
  | succ n ih =>
    by_cases hnil : w.stack = []
    · rw [walk, hnil, List.isEmpty_nil, if_pos rfl]
      exact hnil
    · have hlt := Walk.remaining_step_lt hw hnil
      rw [walk_succ]
      exact ih (hw.step hg) (by omega)

/-- The limit is enough for a walk from one node. -/
theorem remaining_le_walkLimit (hnil : w.stack = [x]) : w.remaining g ≤ g.walkLimit := by
  have hedges : g.unseen w.met ≤ g.edges.length := List.length_filter_le _ _
  have hnodes : g.unmet w.met ≤ g.roots.length := List.length_filter_le _ _
  rw [Walk.remaining, walkLimit, hnil, List.length_singleton]
  omega

/-! ## The order in which nodes are done -/

/-- A node waits on a stack, with nothing above it but nodes that it leads to; what it asks for is
done or above it. -/
def Waits (g : SolutionGraph) (done stack : List String) (x : String) : Prop :=
  ∃ above below, stack = above ++ x :: below ∧ (∀ y ∈ above, TransGen g.Leads x y) ∧
    ∀ y, g.Leads x y → y ∈ done ∨ y ∈ above

/-- The nodes that are done are so in an order of dependencies, and those that are not wait. -/
structure Walk.InOrder (g : SolutionGraph) (w : Walk) : Prop where
  met_of_done : ∀ x ∈ w.done, x ∈ w.met
  nodup : w.done.Nodup
  /-- What a node asks for is done before it. -/
  done_of_leads : ∀ x ∈ w.done, ∀ y, g.Leads x y → y ∈ w.done
  ordered : w.done.Pairwise fun later earlier => ¬ g.Leads earlier later
  waits : ∀ x ∈ w.met, x ∉ w.done → g.Waits w.done w.stack x

theorem IsAcyclic.ne (hg : g.IsAcyclic) (h : TransGen g.Leads x y) : x ≠ y := by
  rintro rfl
  exact hg x h

section Waits

variable {done done' pushed : List String}

theorem Waits.exists_above (h : g.Waits done (x :: rest) y) (hne : x ≠ y) : ∃ above below,
    rest = above ++ y :: below ∧ (∀ z ∈ x :: above, TransGen g.Leads y z) ∧
      ∀ z, g.Leads y z → z ∈ done ∨ z ∈ x :: above := by
  obtain ⟨above, below, heq, hleads, hasks⟩ := h
  cases above with
  | nil => exact absurd (List.cons.inj heq).1 hne
  | cons z above =>
    obtain ⟨rfl, hrest⟩ := List.cons.inj heq
    exact ⟨above, below, hrest, hleads, hasks⟩

theorem Waits.leads_top (h : g.Waits done (x :: rest) y) (hne : x ≠ y) : TransGen g.Leads y x := by
  obtain ⟨above, below, -, hleads, -⟩ := h.exists_above hne
  exact hleads x List.mem_cons_self

/-- What a node on top of the stack asks for is done, as it leads to nothing that could be above
it. -/
theorem Waits.done_of_leads (hg : g.IsAcyclic) (h : g.Waits done (x :: rest) x) (hy : g.Leads x y) :
    y ∈ done := by
  obtain ⟨above, below, heq, hleads, hasks⟩ := h
  cases above with
  | nil => exact (hasks y hy).resolve_right List.not_mem_nil
  | cons z above =>
    obtain ⟨rfl, -⟩ := List.cons.inj heq
    exact absurd (hleads x List.mem_cons_self) (hg x)

/-- A node goes on waiting when the one on top is done and dropped. -/
theorem Waits.drop (h : g.Waits done (x :: rest) y) (hne : x ≠ y) (hx : x ∈ done')
    (hdone : ∀ z ∈ done, z ∈ done') : g.Waits done' rest y := by
  obtain ⟨above, below, hrest, hleads, hasks⟩ := h.exists_above hne
  refine ⟨above, below, hrest, fun z hz => hleads z (List.mem_cons_of_mem _ hz), fun z hz => ?_⟩
  rcases hasks z hz with hz | hz
  · exact .inl (hdone z hz)
  · rcases List.mem_cons.1 hz with rfl | hz
    · exact .inl hx
    · exact .inr hz

/-- A node goes on waiting below what the one on top asks for. -/
theorem Waits.push (h : g.Waits done (x :: rest) y) (hne : x ≠ y)
    (hpushed : ∀ z ∈ pushed, g.Leads x z) : g.Waits done (pushed ++ x :: rest) y := by
  obtain ⟨above, below, hrest, hleads, hasks⟩ := h.exists_above hne
  refine ⟨pushed ++ x :: above, below, ?_, fun z hz => ?_, fun z hz => ?_⟩
  · rw [hrest, List.append_assoc, List.cons_append]
  · rcases List.mem_append.1 hz with hz | hz
    · exact (hleads x List.mem_cons_self).tail (hpushed z hz)
    · exact hleads z hz
  · exact (hasks z hz).imp_right (List.mem_append_right _)

end Waits

/-- A node that is met asks for what is done or new: what waits below it leads to it. -/
theorem Walk.InOrder.waits_met (hg : g.IsAcyclic) (hw : w.InOrder g) (hstack : w.stack = x :: rest)
    (hmet : x ∉ w.met) : g.Waits w.done (w.pushed g x ++ x :: rest) x := by
  refine ⟨w.pushed g x, rest, rfl, fun y hy => .single (Walk.mem_pushed.1 hy).1, fun y hy => ?_⟩
  by_cases hymet : y ∈ w.met
  · by_cases hydone : y ∈ w.done
    · exact .inl hydone
    · have hwaits := hw.waits y hymet hydone
      have hne : x ≠ y := fun h => hmet (h ▸ hymet)
      rw [hstack] at hwaits
      exact absurd ((hwaits.leads_top hne).tail hy) (hg y)
  · have hne : y ≠ x := Ne.symm (hg.ne (.single hy))
    exact .inr (Walk.mem_pushed.2 ⟨hy, hne, hymet⟩)

theorem Walk.InOrder.step (hg : g.IsAcyclic) (hw : w.InOrder g) : (g.step w).InOrder g := by
  have hwaits := hw.waits
  rcases step_cases g w with ⟨-, hstep⟩ | ⟨x, rest, hstack, hstep⟩
  · rwa [hstep]
  rw [hstack] at hwaits
  rcases hstep with ⟨-, hdone, hstep⟩ | ⟨hmet, hdone, hstep⟩ | ⟨hmet, hstep⟩ <;> rw [hstep]
  -- a node that is done is dropped, and nobody waits for it
  · refine ⟨hw.met_of_done, hw.nodup, hw.done_of_leads, hw.ordered, fun y hy hydone => ?_⟩
    exact (hwaits y hy hydone).drop (fun h => hydone (h ▸ hdone)) hdone fun _ hz => hz
  -- a node is done: what it asks for is done before it, and it was asked for by none that is done
  · have hasked : ∀ y, g.Leads x y → y ∈ w.done := fun y => (hwaits x hmet hdone).done_of_leads hg
    refine ⟨?_, List.nodup_cons.2 ⟨hdone, hw.nodup⟩, ?_, List.pairwise_cons.2 ⟨?_, hw.ordered⟩, ?_⟩
    · exact List.forall_mem_cons.2 ⟨hmet, hw.met_of_done⟩
    · intro y hy z hz
      rcases List.mem_cons.1 hy with rfl | hy
      · exact List.mem_cons_of_mem _ (hasked z hz)
      · exact List.mem_cons_of_mem _ (hw.done_of_leads y hy z hz)
    · exact fun y hy hleads => hdone (hw.done_of_leads y hy x hleads)
    · intro y hy hydone
      rw [List.mem_cons, not_or] at hydone
      exact (hwaits y hy hydone.2).drop (Ne.symm hydone.1) List.mem_cons_self fun _ =>
        List.mem_cons_of_mem _
  -- a node is met and waits for what it asks for
  · refine ⟨fun y hy => List.mem_cons_of_mem _ (hw.met_of_done y hy), hw.nodup, hw.done_of_leads,
      hw.ordered, ?_⟩
    intro y hy hydone
    rcases List.mem_cons.1 hy with rfl | hy
    · exact hw.waits_met hg hstack hmet
    · exact (hwaits y hy hydone).push (fun h => hmet (h ▸ hy)) fun _ hz => (Walk.mem_pushed.1 hz).1

/-! ## Walks from all nodes -/

/-- Nothing that was to be looked at is forgotten. -/
theorem mem_step (h : x ∈ w.stack ∨ x ∈ w.met) : x ∈ (g.step w).stack ∨ x ∈ (g.step w).met := by
  rcases step_cases g w with ⟨-, hstep⟩ | ⟨y, rest, hstack, ⟨hmet, -, hstep⟩ | ⟨hmet, -, hstep⟩ |
    ⟨-, hstep⟩⟩ <;>
    rw [hstep]
  · exact h
  · grind
  · grind
  · grind

/-- A node that was met stays on the stack until it is done. -/
def Walk.Keeps (w : Walk) : Prop :=
  ∀ x ∈ w.met, x ∈ w.done ∨ x ∈ w.stack

theorem Walk.Keeps.step (hw : w.Keeps) : (g.step w).Keeps := by
  rcases step_cases g w with
    ⟨-, hstep⟩ | ⟨y, rest, hstack, ⟨-, hdone, hstep⟩ | ⟨-, -, hstep⟩ | ⟨-, hstep⟩⟩ <;> rw [hstep]
  · exact hw
  all_goals
    rw [Keeps, hstack] at hw
    intro x hx
  · rcases hw x hx with h | h
    · exact .inl h
    · rcases List.mem_cons.1 h with rfl | h
      · exact .inl hdone
      · exact .inr h
  · rcases hw x hx with h | h
    · exact .inl (List.mem_cons_of_mem _ h)
    · rcases List.mem_cons.1 h with rfl | h
      · exact .inl List.mem_cons_self
      · exact .inr h
  · rcases List.mem_cons.1 hx with rfl | hx
    · exact .inr (List.mem_append_right _ List.mem_cons_self)
    · exact (hw x hx).imp_right (List.mem_append_right _)

/-- A walk that is at its end: it has met only nodes and is done with them, without
cycles in order. -/
structure Walk.IsComplete (g : SolutionGraph) (w : Walk) : Prop where
  stack_eq : w.stack = []
  inside : w.IsInside g
  keeps : w.Keeps
  inOrder : g.IsAcyclic → w.InOrder g

theorem Walk.IsComplete.done_of_met (hw : w.IsComplete g) (hx : x ∈ w.met) : x ∈ w.done := by
  have hkept := hw.keeps x hx
  rw [hw.stack_eq] at hkept
  exact hkept.resolve_right List.not_mem_nil

/-- The walk from one more node, unless it was met. -/
def walkFrom (g : SolutionGraph) (w : Walk) (x : String) : Walk :=
  if w.met.contains x then w else g.walk g.walkLimit { w with stack := [x] }

theorem Walk.IsComplete.walkFrom (hg : g.IsSound) (hw : w.IsComplete g) (hx : x ∈ g.roots) :
    (g.walkFrom w x).IsComplete g ∧ x ∈ (g.walkFrom w x).met ∧
      ∀ y ∈ w.met, y ∈ (g.walkFrom w x).met := by
  unfold SolutionGraph.walkFrom
  split
  · rename_i hmet
    exact ⟨hw, List.contains_iff_mem.1 hmet, fun _ hy => hy⟩
  · rename_i hmet
    have hinside : Walk.IsInside g { w with stack := [x] } := by
      rintro y (hy | hy)
      · exact List.mem_singleton.1 hy ▸ hx
      · exact hw.inside y (.inr hy)
    have hkeeps : Walk.Keeps { w with stack := [x] } := fun y hy => .inl (hw.done_of_met hy)
    have hinOrder (hacyclic : g.IsAcyclic) : Walk.InOrder g { w with stack := [x] } := by
      obtain ⟨hmet, hnodup, hleads, hordered, -⟩ := hw.inOrder hacyclic
      exact ⟨hmet, hnodup, hleads, hordered, fun z hz hzdone => absurd (hw.done_of_met hz) hzdone⟩
    have hnil := walk_stack_eq_nil hg hinside (remaining_le_walkLimit rfl)
    have hmem : ∀ y, y ∈ [x] ∨ y ∈ w.met →
        y ∈ (g.walk g.walkLimit { w with stack := [x] }).met := by
      intro y hy
      have hkept :=
        walk_induction (P := fun w => y ∈ w.stack ∨ y ∈ w.met) (fun _ => mem_step (g := g))
        g.walkLimit (w := { w with stack := [x] }) hy
      rw [hnil] at hkept
      exact hkept.resolve_left List.not_mem_nil
    refine ⟨⟨hnil, ?_, ?_, fun hacyclic => ?_⟩, hmem x (.inl List.mem_cons_self),
      fun y hy => hmem y (.inr hy)⟩
    · exact walk_induction (P := Walk.IsInside g) (fun _ h => h.step hg) _ hinside
    · exact walk_induction (P := Walk.Keeps) (fun _ h => h.step) _ hkeeps
    · exact walk_induction (P := Walk.InOrder g) (fun _ h => h.step hacyclic) _ (hinOrder hacyclic)

theorem Walk.IsComplete.foldl_walkFrom (hg : g.IsSound) {starts : List String}
    (hstarts : ∀ x ∈ starts, x ∈ g.roots) (hw : w.IsComplete g) :
    (starts.foldl g.walkFrom w).IsComplete g ∧
      ∀ x, x ∈ starts ∨ x ∈ w.met → x ∈ (starts.foldl g.walkFrom w).met := by
  induction starts generalizing w with
  | nil => exact ⟨hw, fun x hx => hx.resolve_left List.not_mem_nil⟩
  | cons start starts ih =>
    obtain ⟨hnext, hstart, hkept⟩ := hw.walkFrom hg (hstarts start List.mem_cons_self)
    obtain ⟨hend, hmet⟩ := ih (fun x hx => hstarts x (List.mem_cons_of_mem _ hx)) hnext
    refine ⟨hend, fun x hx => hmet x ?_⟩
    rcases hx with hx | hx
    · rcases List.mem_cons.1 hx with rfl | hx
      · exact .inr hstart
      · exact .inl hx
    · exact .inr (hkept x hx)

/-- The walks come to an end where every node is done. -/
theorem exists_finishOrder (hg : g.IsSound) :
    ∃ w : Walk, g.finishOrder = w.done.reverse ∧ w.IsComplete g ∧ ∀ x ∈ g.roots, x ∈ w.done := by
  have hstart : Walk.IsComplete g ⟨[], [], []⟩ := by
    have hinOrder : Walk.InOrder g ⟨[], [], []⟩ := by
      refine ⟨?_, List.nodup_nil, ?_, List.Pairwise.nil, ?_⟩ <;> exact fun x hx => nomatch hx
    exact ⟨rfl, fun x hx => by simp at hx, fun x hx => (nomatch hx), fun _ => hinOrder⟩
  obtain ⟨hend, hmet⟩ := hstart.foldl_walkFrom hg fun _ hx => hx
  exact ⟨_, rfl, hend, fun x hx => hend.done_of_met (hmet x (.inl hx))⟩

theorem mem_finishOrder (hg : g.IsSound) (hx : x ∈ g.roots) : x ∈ g.finishOrder := by
  obtain ⟨w, heq, -, hall⟩ := exists_finishOrder hg
  rw [heq]
  exact List.mem_reverse.2 (hall x hx)

/-- Without cycles, the walks are done with every node once, and with what it asks for before. -/
theorem finishOrder_perm (hg : g.IsSound) (hacyclic : g.IsAcyclic) : g.finishOrder.Perm g.roots ∧
    g.finishOrder.Pairwise fun earlier later => ¬ g.Leads earlier later := by
  obtain ⟨w, heq, hend, hall⟩ := exists_finishOrder hg
  have hinOrder := hend.inOrder hacyclic
  rw [heq]
  constructor
  · apply (List.perm_ext_iff_of_nodup (List.nodup_reverse.2 hinOrder.nodup) hg.nodup).2
    intro x
    rw [List.mem_reverse]
    exact ⟨fun hx => hend.inside x (.inr (hinOrder.met_of_done x hx)), hall x⟩
  · exact List.pairwise_reverse.2 hinOrder.ordered

/-- Without cycles, a node comes behind what it asks for. -/
theorem idxOf_finishOrder_lt (hg : g.IsSound) (hacyclic : g.IsAcyclic) (hleads : g.Leads x y) :
    g.finishOrder.idxOf y < g.finishOrder.idxOf x := by
  obtain ⟨hx, hy⟩ := hg.mem_of_leads hleads
  by_contra hle
  have hneq : g.finishOrder.idxOf x ≠ g.finishOrder.idxOf y :=
    fun h => hacyclic.ne (.single hleads) ((List.idxOf_inj (mem_finishOrder hg hx)).1 h)
  have hlt : g.finishOrder.idxOf x < g.finishOrder.idxOf y := by omega
  have hpair := List.pairwise_iff_getElem.1 (finishOrder_perm hg hacyclic).2 _ _
    (List.idxOf_lt_length_of_mem (mem_finishOrder hg hx))
    (List.idxOf_lt_length_of_mem (mem_finishOrder hg hy)) hlt
  rw [List.getElem_idxOf, List.getElem_idxOf] at hpair
  exact hpair hleads

end Depsolve.SolutionGraph
