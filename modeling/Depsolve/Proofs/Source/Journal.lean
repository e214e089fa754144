import Mathlib.Data.List.Dedup
import Mathlib.Data.List.Nodup
import Depsolve.Proofs.Source.Kinds

/-!
# What a cache has been through

A cache is used by calls that query it, look into it, ask for its counts or clear it. A query comes
with a fetch of its own, which may query the same cache and look into it before it has an outcome. A
journal notes all that happens, the latest event first.

`Cache.journal_accounted` is the main statement: whatever the calls are, as long as no fetch waits
for itself, every event of the journal follows from what was noted before it (`Event.AccountedBy`).
A fetch is run for the first query of a key and for no other, each query gets the outcome of that
fetch, and the counts are right.

The proof reads the cache off the journal. `Reflects` says how, and `IsHonest` that a computation
keeps it so; fetches are honest by induction on what they do.
-/

namespace Depsolve

namespace Cache

/-- What a cache remembers at most one answer to: a kind of query, and the key under which it
is remembered. -/
structure Slot where
  kind : QueryKind
  key : kind.Key
deriving DecidableEq

/-- What can happen to a cache. -/
inductive Event
  /-- A query begins. -/
  | asked (slot : Slot)
  /-- The fetch of a query was run, and has an outcome. -/
  | fetched (slot : Slot) (answer : Except SourceFault slot.kind.Answer)
  /-- A query ends. -/
  | answered (slot : Slot) (answer : Except SourceFault slot.kind.Answer)
  /-- The cache says whether it knows the versions of a project. -/
  | looked (p : Project) (isKnown : Bool)
  /-- The cache says how many answers it has and how often they helped. -/
  | counted (size hits misses : Nat)
  | cleared

namespace Event

/-- The query that begins. -/
def asked? : Event → Option Slot
  | .asked slot => some slot
  | _ => none

/-- The query that a fetch was run for. -/
def fetched? : Event → Option Slot
  | .fetched slot _ => some slot
  | _ => none

/-- The query that ends. -/
def answered? : Event → Option Slot
  | .answered slot _ => some slot
  | _ => none

end Event

/-- What has happened to a cache, the latest first. -/
abbrev Journal := List Event

namespace Journal

/-- What has happened since the cache was cleared. -/
def recent : Journal → Journal
  | [] => []
  | .cleared :: _ => []
  | e :: past => e :: recent past

/-- The queries that have begun. -/
def asked (j : Journal) : List Slot :=
  j.filterMap Event.asked?

/-- The fetches that were run. -/
def fetched (j : Journal) : List Slot :=
  j.filterMap Event.fetched?

/-- The queries that have ended. -/
def answered (j : Journal) : List Slot :=
  j.filterMap Event.answered?

/-- The queries that have begun and not ended. -/
def pending : Journal → List Slot
  | [] => []
  | .asked slot :: past => slot :: pending past
  | .answered slot _ :: past => (pending past).erase slot
  | _ :: past => pending past

/-- Something holds of every event and those before it. -/
def Throughout (P : Journal → Event → Prop) (j : Journal) : Prop :=
  ∀ e past, e :: past <:+ j → P past e

/-- No fetch waits for itself: a query that is pending is not begun again. -/
def Apart : Journal → Prop :=
  Throughout fun past e => ∀ slot ∈ e.asked?, slot ∉ past.pending

end Journal

open Journal

/-- What an event may be, after a past. -/
def Event.AccountedBy (past : Journal) : Event → Prop
  | .asked _ => True
  -- the query that waits for the fetch is the first of its slot, and so is the fetch
  | .fetched slot _ => past.recent.asked.count slot = 1 ∧ slot ∉ past.recent.fetched
  | .answered slot answer => .fetched slot answer ∈ past.recent
  | .looked p isKnown => isKnown = true ↔ ⟨.versions, p⟩ ∈ past.recent.fetched
  | .counted size hits misses =>
    size = past.recent.asked.dedup.length ∧ misses = past.fetched.length ∧
      hits + misses = past.answered.length
  | .cleared => True

/-- Every event follows from those before it. -/
def Journal.Accounted : Journal → Prop :=
  Throughout fun past e => e.AccountedBy past

/-- A cache in use, with what has happened to it. -/
abbrev Noted := Cache × Journal

/-- Notes an event. -/
def note (e : Event) : StateM Noted Unit :=
  modify fun (c, j) => (c, e :: j)

/-- A query to a cache, with a fetch. -/
def query (kind : QueryKind) (key : kind.Key)
    (fetch : StateM Noted (Except SourceFault kind.Answer)) :
    StateM Noted (Except SourceFault kind.Answer) := do
  let slot : Slot := ⟨kind, kind.entry key⟩
  note (.asked slot)
  let answer ← remember kind.table (kind.entry key) do
    let answer ← fetch
    note (.fetched slot answer)
    return answer
  note (.answered slot answer)
  return answer

/-- Asks whether the versions of a project are known. -/
def look (p : Project) : StateM Noted Bool := do
  let isKnown := (← get).1.hasVersions p
  note (.looked p isKnown)
  return isKnown

/-- A fetch for a query of some kind. What it does next may depend on the answers that it got. -/
inductive Fetch : QueryKind → Type
  | outcome {kind : QueryKind} (answer : Except SourceFault kind.Answer) : Fetch kind
  | query {kind : QueryKind} (asked : QueryKind) (key : asked.Key) (fetch : Fetch asked)
      (next : Except SourceFault asked.Answer → Fetch kind) : Fetch kind
  | look {kind : QueryKind} (p : Project) (next : Bool → Fetch kind) : Fetch kind

/-- Runs a fetch. -/
def Fetch.run {kind : QueryKind} : Fetch kind → StateM Noted (Except SourceFault kind.Answer)
  | .outcome answer => return answer
  | .query asked key fetch next => do
    let answer ← Cache.query asked key fetch.run
    (next answer).run
  | .look p next => do
    let isKnown ← Cache.look p
    (next isKnown).run

/-- A call to a cache. -/
inductive Call
  | query (kind : QueryKind) (key : kind.Key) (fetch : Fetch kind)
  | look (p : Project)
  | count
  | clear

/-- Makes a call. -/
def Call.run : Call → StateM Noted Unit
  | .query kind key fetch => discard (Cache.query kind key fetch.run)
  | .look p => discard (Cache.look p)
  | .count => do
    let (c, _) ← get
    note (.counted c.size c.hits c.misses)
  | .clear => do
    modify fun (c, j) => (c.clear, j)
    note .cleared

/-- What happens to a new cache in the course of some calls. -/
def journal (calls : List Call) : Journal :=
  ((calls.forM Call.run).run (.empty, [])).2.2

/-! ## Reading a cache off its journal -/

namespace Journal

variable {j j' : Journal} {e : Event} {P : Journal → Event → Prop}

theorem Throughout.of_suffix (h : j'.Throughout P) (hsuffix : j <:+ j') : j.Throughout P :=
  fun e past hpast => h e past (hpast.trans hsuffix)

theorem throughout_nil : Throughout P [] :=
  fun _ _ h => absurd (List.suffix_nil.1 h) (List.cons_ne_nil _ _)

theorem throughout_cons : Throughout P (e :: j) ↔ P j e ∧ j.Throughout P := by
  constructor
  · exact fun h => ⟨h e j (List.suffix_refl _), h.of_suffix (List.suffix_cons e j)⟩
  · rintro ⟨he, hj⟩ e' past hpast
    rcases List.suffix_cons_iff.1 hpast with heq | hpast
    · obtain ⟨rfl, rfl⟩ := List.cons.inj heq
      exact he
    · exact hj e' past hpast

instance decidableThroughout [∀ past e, Decidable (P past e)] :
    (j : Journal) → Decidable (j.Throughout P)
  | [] => isTrue throughout_nil
  | _ :: past =>
    haveI := decidableThroughout past
    decidable_of_iff _ throughout_cons.symm

instance (j : Journal) : Decidable j.Apart :=
  inferInstanceAs (Decidable (j.Throughout _))

theorem mem_fetched {slot : Slot} : slot ∈ j.fetched ↔ ∃ answer, .fetched slot answer ∈ j := by
  constructor
  · intro h
    obtain ⟨e, he, heq⟩ := List.mem_filterMap.1 h
    cases e with
    | fetched slot' answer =>
      obtain rfl := Option.some.inj heq
      exact ⟨answer, he⟩
    | _ => cases heq
  · exact fun ⟨answer, h⟩ => List.mem_filterMap.2 ⟨_, h, rfl⟩

end Journal

section Store

variable {slot : Slot} {c : Cache} {answer : Except SourceFault slot.kind.Answer}

theorem lookup_store_self :
    (slot.kind.table.get (store slot.kind.table slot.key answer c)).lookup slot.key =
      some answer := by
  rw [get_store, List.lookup_cons_self]

theorem lookup_store_of_ne {slot' : Slot} (h : slot' ≠ slot) :
    (slot'.kind.table.get (store slot.kind.table slot.key answer c)).lookup slot'.key =
      (slot'.kind.table.get c).lookup slot'.key := by
  obtain ⟨kind, key⟩ := slot
  obtain ⟨kind', key'⟩ := slot'
  by_cases hkind : kind' = kind
  · subst hkind
    have hkey : key' ≠ key := fun heq => h (heq ▸ rfl)
    rw [get_store, List.lookup_cons, beq_eq_false_iff_ne.2 hkey]
  · rw [get_store_of_ne hkind]

end Store

/-- A cache is what its journal says. -/
structure Reflects (s : Noted) : Prop where
  accounted : s.2.Accounted
  lookup : ∀ (slot : Slot) answer,
    (slot.kind.table.get s.1).lookup slot.key = some answer ↔ .fetched slot answer ∈ s.2.recent
  size : s.1.size = s.2.recent.fetched.length
  misses : s.1.misses = s.2.fetched.length
  hits : s.1.hits + s.1.misses = s.2.answered.length
  nodup : s.2.recent.fetched.Nodup
  /-- What was asked was fetched, or its fetch is not done. -/
  asked : ∀ slot, slot ∈ s.2.recent.asked ↔ slot ∈ s.2.recent.fetched ∨ slot ∈ s.2.pending
  pending : ∀ slot ∈ s.2.pending, slot ∉ s.2.recent.fetched ∧ s.2.recent.asked.count slot = 1

/-- A computation ends all queries that it begins, and leaves the cache as its journal says. -/
structure IsHonest {α : Type} (m : StateM Noted α) : Prop where
  suffix : ∀ s, s.2 <:+ (m.run s).2.2
  pending : ∀ s, (m.run s).2.2.pending = s.2.pending
  reflects : ∀ s, Reflects s → (m.run s).2.2.Apart → Reflects (m.run s).2

theorem reflects_empty : Reflects (.empty, []) where
  accounted := throughout_nil
  lookup slot answer := by simp [recent]
  size := rfl
  misses := rfl
  hits := rfl
  nodup := List.nodup_nil
  asked slot := by simp [recent, Journal.asked, Journal.fetched, Journal.pending]
  pending slot h := absurd h List.not_mem_nil

namespace Reflects

variable {c : Cache} {j : Journal} {slot : Slot}

theorem fetched_of_lookup {answer : Except SourceFault slot.kind.Answer} (h : Reflects (c, j))
    (hlookup : (slot.kind.table.get c).lookup slot.key = some answer) : slot ∈ j.recent.fetched :=
  mem_fetched.2 ⟨answer, (h.lookup slot answer).1 hlookup⟩

theorem lookup_eq_none (h : Reflects (c, j)) :
    (slot.kind.table.get c).lookup slot.key = none ↔ slot ∉ j.recent.fetched := by
  rw [mem_fetched, not_exists, Option.eq_none_iff_forall_not_mem]
  exact forall_congr' fun answer => not_congr (h.lookup slot answer)

/-- A query that the cache can answer. -/
theorem hit {answer : Except SourceFault slot.kind.Answer} (h : Reflects (c, j))
    (hlookup : (slot.kind.table.get c).lookup slot.key = some answer) :
    Reflects ({ c with hits := c.hits + 1 }, .answered slot answer :: .asked slot :: j) where
  accounted := throughout_cons.2 ⟨List.mem_cons_of_mem _ ((h.lookup slot answer).1 hlookup),
    throughout_cons.2 ⟨trivial, h.accounted⟩⟩
  lookup slot' answer' := by
    simpa [recent] using h.lookup slot' answer'
  size := h.size
  misses := h.misses
  hits := by
    have hhits : c.hits + c.misses = j.answered.length := h.hits
    change c.hits + 1 + c.misses = j.answered.length + 1
    omega
  nodup := h.nodup
  asked slot' := by
    have hiff : slot' ∈ slot :: j.recent.asked ↔
        slot' ∈ j.recent.fetched ∨ slot' ∈ (slot :: j.pending).erase slot := by
      rw [List.erase_cons_head, List.mem_cons, h.asked slot']
      exact or_iff_right_of_imp fun heq => .inl (heq ▸ h.fetched_of_lookup hlookup)
    exact hiff
  pending slot' hslot := by
    obtain ⟨hnot, hcount⟩ := h.pending slot' (List.erase_cons_head slot j.pending ▸ hslot)
    have hne : slot ≠ slot' := fun heq => hnot (heq ▸ h.fetched_of_lookup hlookup)
    exact ⟨hnot, (List.count_cons_of_ne hne).trans hcount⟩

/-- A query that the cache cannot answer begins. -/
theorem begin (h : Reflects (c, j)) (hlookup : (slot.kind.table.get c).lookup slot.key = none)
    (hpending : slot ∉ j.pending) : Reflects (c, .asked slot :: j) where
  accounted := throughout_cons.2 ⟨trivial, h.accounted⟩
  lookup slot' answer' := by
    simpa [recent] using h.lookup slot' answer'
  size := h.size
  misses := h.misses
  hits := h.hits
  nodup := h.nodup
  asked slot' := by
    have hiff : slot' ∈ slot :: j.recent.asked ↔
        slot' ∈ j.recent.fetched ∨ slot' ∈ slot :: j.pending := by
      rw [List.mem_cons, List.mem_cons, h.asked slot', or_left_comm]
    exact hiff
  pending slot' hslot := by
    have hnot : slot ∉ j.recent.fetched := h.lookup_eq_none.1 hlookup
    rcases List.mem_cons.1 hslot with rfl | hslot
    · have hasked : slot' ∉ j.recent.asked := fun hmem =>
        ((h.asked slot').1 hmem).elim hnot hpending
      exact ⟨hnot, by
        rw [show Journal.asked (recent (.asked slot' :: j)) = slot' :: j.recent.asked from rfl,
          List.count_cons_self, List.count_eq_zero_of_not_mem hasked]⟩
    · have hne : slot ≠ slot' := fun heq => hpending (heq ▸ hslot)
      obtain ⟨hnot', hcount⟩ := h.pending slot' hslot
      exact ⟨hnot', (List.count_cons_of_ne hne).trans hcount⟩

/-- The fetch for a query is done, and its outcome is remembered. -/
theorem finish (answer : Except SourceFault slot.kind.Answer) {rest : List Slot}
    (h : Reflects (c, j)) (hpending : j.pending = slot :: rest) (hrest : slot ∉ rest) :
    Reflects (store slot.kind.table slot.key answer c,
      .answered slot answer :: .fetched slot answer :: j) := by
  -- the slot waits for this very fetch, and so it was asked once and has no answer yet
  have hmem : slot ∈ j.pending := hpending ▸ List.mem_cons_self
  obtain ⟨hnot, hcount⟩ := h.pending slot hmem
  have hpending' : (j.pending).erase slot = rest := by
    rw [hpending, List.erase_cons_head]
  refine ⟨?_, fun slot' answer' => ?_, ?_, ?_, ?_, ?_, fun slot' => ?_, fun slot' hslot' => ?_⟩
  · exact throughout_cons.2 ⟨List.mem_cons_self, throughout_cons.2 ⟨⟨hcount, hnot⟩, h.accounted⟩⟩
  · by_cases heq : slot' = slot
    · subst heq
      have hnone : .fetched slot' answer' ∉ j.recent :=
        fun hmem' => hnot (mem_fetched.2 ⟨answer', hmem'⟩)
      rw [lookup_store_self]
      simp [recent, hnone, eq_comm]
    · rw [lookup_store_of_ne heq, h.lookup slot' answer']
      simp [recent, heq]
  · rw [size_store, h.size]
    rfl
  · rw [misses_store, h.misses]
    rfl
  · have hhits : c.hits + c.misses = j.answered.length := h.hits
    rw [hits_store, misses_store]
    change c.hits + (c.misses + 1) = j.answered.length + 1
    omega
  · exact List.nodup_cons.2 ⟨hnot, h.nodup⟩
  · have hiff : slot' ∈ j.recent.asked ↔
        slot' ∈ slot :: j.recent.fetched ∨ slot' ∈ (j.pending).erase slot := by
      rw [hpending', h.asked slot', hpending, List.mem_cons, List.mem_cons, or_left_comm, or_assoc]
    exact hiff
  · have hslot : slot' ∈ rest := hpending' ▸ hslot'
    have hne : slot' ≠ slot := fun heq => hrest (heq ▸ hslot)
    obtain ⟨hnot', hcount'⟩ := h.pending slot' (hpending ▸ List.mem_cons_of_mem _ hslot)
    exact ⟨fun hmem' => (List.mem_cons.1 hmem').elim hne hnot', hcount'⟩

theorem hasVersions_iff {p : Project} (h : Reflects (c, j)) :
    c.hasVersions p = true ↔ ⟨.versions, p⟩ ∈ j.recent.fetched := by
  rw [← not_iff_not, ← h.lookup_eq_none, hasVersions, Option.not_isSome_iff_eq_none]
  rfl

/-- The cache is asked about itself. -/
theorem observe {e : Event} (h : Reflects (c, j))
    (he : (∃ p isKnown, e = .looked p isKnown) ∨ ∃ size hits misses, e = .counted size hits misses)
    (haccounted : e.AccountedBy j) : Reflects (c, e :: j) := by
  have haccounted' : Journal.Accounted (e :: j) := throughout_cons.2 ⟨haccounted, h.accounted⟩
  rcases he with ⟨p, isKnown, rfl⟩ | ⟨size, hits, misses, rfl⟩ <;>
    exact ⟨haccounted',
      fun slot answer => by simpa [recent] using h.lookup slot answer, h.size, h.misses, h.hits,
      h.nodup, h.asked, h.pending⟩

/-- The cache is cleared between calls. -/
theorem clear (h : Reflects (c, j)) (hpending : j.pending = []) :
    Reflects (c.clear, .cleared :: j) where
  accounted := throughout_cons.2 ⟨trivial, h.accounted⟩
  lookup slot answer := by simp [recent]
  size := rfl
  misses := h.misses
  hits := h.hits
  nodup := List.nodup_nil
  asked slot := by
    have hiff : slot ∈ ([] : List Slot) ↔ slot ∈ ([] : List Slot) ∨ slot ∈ j.pending := by
      simp [hpending]
    exact hiff
  pending slot hslot := by
    rw [show Journal.pending (.cleared :: j) = j.pending from rfl, hpending] at hslot
    exact absurd hslot List.not_mem_nil

/-- Between calls, what was asked was fetched. -/
theorem size_eq_asked (h : Reflects (c, j)) (hpending : j.pending = []) :
    c.size = j.recent.asked.dedup.length := by
  have hperm : j.recent.fetched.Perm j.recent.asked.dedup := by
    refine (List.perm_ext_iff_of_nodup h.nodup (List.nodup_dedup _)).2 fun slot => ?_
    rw [List.mem_dedup, h.asked slot, hpending]
    simp
  exact h.size.trans hperm.length_eq

end Reflects

/-! ## Fetches -/

variable {α β : Type} {kind : QueryKind} {key : kind.Key}
  {fetch : StateM Noted (Except SourceFault kind.Answer)} {c : Cache} {j : Journal}

theorem query_run_of_some {answer : Except SourceFault kind.Answer}
    (h : (kind.table.get c).lookup (kind.entry key) = some answer) :
    (query kind key fetch).run (c, j) =
      (answer, { c with hits := c.hits + 1 },
        .answered ⟨kind, kind.entry key⟩ answer :: .asked ⟨kind, kind.entry key⟩ :: j) := by
  simp only [query, note, StateT.run_bind, StateT.run_modify, pure_bind, remember_run_of_some h]
  rfl

theorem query_run_of_none (h : (kind.table.get c).lookup (kind.entry key) = none) :
    (query kind key fetch).run (c, j) =
      let r := fetch.run (c, .asked ⟨kind, kind.entry key⟩ :: j)
      (r.1, store kind.table (kind.entry key) r.1 r.2.1,
        .answered ⟨kind, kind.entry key⟩ r.1 :: .fetched ⟨kind, kind.entry key⟩ r.1 :: r.2.2) := by
  simp only [query, note, StateT.run_bind, StateT.run_modify, pure_bind, remember_run_of_none h]
  rfl

namespace IsHonest

theorem pure (a : α) : IsHonest (Pure.pure a : StateM Noted α) where
  suffix s := List.suffix_refl s.2
  pending _ := rfl
  reflects _ h _ := h

theorem bind {m : StateM Noted α} {f : α → StateM Noted β} (hm : IsHonest m)
    (hf : ∀ a, IsHonest (f a)) : IsHonest (m >>= f) where
  suffix s := (hm.suffix s).trans ((hf _).suffix _)
  pending s := ((hf _).pending _).trans (hm.pending s)
  reflects s h hapart :=
    (hf _).reflects _ (hm.reflects s h (hapart.of_suffix ((hf _).suffix _))) hapart

theorem query (hfetch : IsHonest fetch) : IsHonest (query kind key fetch) where
  suffix := by
    rintro ⟨c, j⟩
    cases hlookup : (kind.table.get c).lookup (kind.entry key) with
    | some answer =>
      rw [query_run_of_some hlookup]
      exact (List.suffix_cons _ _).trans (List.suffix_cons _ _)
    | none =>
      rw [query_run_of_none hlookup]
      have hsuffix := hfetch.suffix (c, .asked ⟨kind, kind.entry key⟩ :: j)
      dsimp only at hsuffix ⊢
      exact (List.suffix_cons _ _).trans (hsuffix.trans
        ((List.suffix_cons _ _).trans (List.suffix_cons _ _)))
  pending := by
    rintro ⟨c, j⟩
    cases hlookup : (kind.table.get c).lookup (kind.entry key) with
    | some answer =>
      rw [query_run_of_some hlookup]
      exact List.erase_cons_head _ _
    | none =>
      rw [query_run_of_none hlookup]
      have hpending := hfetch.pending (c, .asked ⟨kind, kind.entry key⟩ :: j)
      exact (congrArg (List.erase · _) hpending).trans (List.erase_cons_head _ _)
  reflects := by
    rintro ⟨c, j⟩ h hapart
    cases hlookup : (kind.table.get c).lookup (kind.entry key) with
    | some answer =>
      rw [query_run_of_some hlookup]
      exact h.hit hlookup
    | none =>
      rw [query_run_of_none hlookup] at hapart ⊢
      -- the journal at the end of the fetch, and what it is at the beginning
      have hfetched : (fetch.run (c, .asked ⟨kind, kind.entry key⟩ :: j)).2.2.Apart :=
        hapart.of_suffix ((List.suffix_cons _ _).trans (List.suffix_cons _ _))
      have hfresh : (⟨kind, kind.entry key⟩ : Slot) ∉ j.pending :=
        hfetched _ _ (hfetch.suffix (c, .asked ⟨kind, kind.entry key⟩ :: j)) _ rfl
      have hbegin : Reflects (c, .asked ⟨kind, kind.entry key⟩ :: j) := h.begin hlookup hfresh
      exact (hfetch.reflects _ hbegin hfetched).finish _ (hfetch.pending _) hfresh

theorem look (p : Project) : IsHonest (look p) where
  suffix _ := List.suffix_cons _ _
  pending _ := rfl
  reflects := by
    rintro ⟨c, j⟩ h -
    exact h.observe (.inl ⟨p, _, rfl⟩) h.hasVersions_iff

end IsHonest

theorem Fetch.isHonest (fetch : Fetch kind) : IsHonest fetch.run := by
  induction fetch with
  | outcome answer => exact .pure answer
  | query asked key fetch next ih ihnext => exact ih.query.bind ihnext
  | look p next ihnext => exact (IsHonest.look p).bind ihnext

/-! ## Calls -/

namespace Call

variable {s : Noted}

theorem suffix (call : Call) (s : Noted) : s.2 <:+ (call.run.run s).2.2 := by
  cases call with
  | query kind key fetch => exact fetch.isHonest.query.suffix s
  | look p => exact (IsHonest.look p).suffix s
  | count => exact List.suffix_cons _ _
  | clear => exact List.suffix_cons _ _

theorem pending (call : Call) (s : Noted) : (call.run.run s).2.2.pending = s.2.pending := by
  cases call with
  | query kind key fetch => exact fetch.isHonest.query.pending s
  | look p => rfl
  | count => rfl
  | clear => rfl

theorem reflects (call : Call) (hs : Reflects s) (hpending : s.2.pending = [])
    (hapart : (call.run.run s).2.2.Apart) : Reflects (call.run.run s).2 := by
  obtain ⟨c, j⟩ := s
  cases call with
  | query kind key fetch => exact fetch.isHonest.query.reflects (c, j) hs hapart
  | look p => exact (IsHonest.look p).reflects (c, j) hs hapart
  | count =>
    exact hs.observe (.inr ⟨_, _, _, rfl⟩) ⟨hs.size_eq_asked hpending, hs.misses, hs.hits⟩
  | clear => exact hs.clear hpending

end Call

theorem suffix_forM (calls : List Call) (s : Noted) :
    s.2 <:+ ((calls.forM Call.run).run s).2.2 := by
  induction calls generalizing s with
  | nil => exact List.suffix_refl s.2
  | cons call calls ih => exact (call.suffix s).trans (ih (call.run.run s).2)

theorem reflects_forM (calls : List Call) {s : Noted} (hs : Reflects s)
    (hpending : s.2.pending = []) (hapart : ((calls.forM Call.run).run s).2.2.Apart) :
    Reflects ((calls.forM Call.run).run s).2 := by
  induction calls generalizing s with
  | nil => exact hs
  | cons call calls ih =>
    have hapart' : (call.run.run s).2.2.Apart := hapart.of_suffix (suffix_forM calls _)
    exact ih (call.reflects hs hpending hapart') ((call.pending s).trans hpending) hapart

/-- Every event in the journal of a cache follows from those before it, as long as no fetch
waits for itself. -/
theorem journal_accounted (calls : List Call) (h : (journal calls).Apart) :
    (journal calls).Accounted :=
  (reflects_forM calls reflects_empty rfl h).accounted

/-- Calls with a fetch that uses the cache itself, for a project and its fork. -/
def errands : List Call :=
  let lib : Project := ⟨"lib", none⟩
  let fork : Project := ⟨"lib", some "fork"⟩
  [.query .versions lib <|
      .query .versions fork (.outcome (.error (.projectNotFound "lib"))) fun _ =>
        .look fork fun _ => .query .root "lib/sub" (.outcome (.ok "lib")) fun _ =>
          .outcome (.ok []),
    .query .versions lib (.outcome (.error (.projectNotFound "lib"))),
    .query .versions fork (.outcome (.ok [])),
    .count,
    .clear,
    .look fork,
    .query .versions fork (.outcome (.ok [])),
    .look fork,
    .count]

theorem journal_accounted_of_errands :
    (journal errands).Apart ∧
      (journal errands).fetched.map (·.kind) = [.versions, .versions, .root, .versions] ∧
        ((journal errands).filterMap fun
          | .counted size hits misses => some (size, hits, misses)
          | _ => none) = [(1, 2, 4), (3, 2, 3)] ∧
          (journal errands).Accounted :=
  have hapart : (journal errands).Apart := by decide +kernel
  ⟨hapart, by decide +kernel, by decide +kernel, journal_accounted errands hapart⟩

end Cache

end Depsolve
