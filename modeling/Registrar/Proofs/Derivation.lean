import Registrar.Entity.Graph

/-!
# Derived classes

A class is derived from another when a chain of parent links leads from the one to the other, whatever
the graph looks like: a parent may be known by name only, a class may be its own parent, and parents
may form a cycle (`derivesFrom_iff_chain`).

The walk gives up at a name that it has passed before. Nothing is lost by that. All along, the parents
of the names passed are among these names, but for the parent of the class that the walk has come to
(`climb_eq_true_iff`); when that one is among them too, no chain leads out of the names passed
(`Leads.mem_of_closed`), and the base is none of them.
-/

namespace Registrar.ClassGraph

variable {g : ClassGraph} {name parent base : Text} {links : Nat}

/-- A class of the graph names its parent. -/
def IsParent (g : ClassGraph) (parent name : Text) : Prop :=
  parent ≠ [] ∧ ∃ e, g.get? name = some e ∧ e.parent = parent

/-- A class has at most one parent. -/
theorem IsParent.eq {other : Text} (h : g.IsParent parent name) (hother : g.IsParent other name) :
    parent = other := by
  obtain ⟨-, e, he, rfl⟩ := h
  obtain ⟨-, e', he', rfl⟩ := hother
  rw [he] at he'
  cases he'
  rfl

theorem not_isParent_of_missing (h : g.get? name = none) (p : Text) : ¬ g.IsParent p name := by
  rintro ⟨-, e, he, -⟩
  rw [h] at he
  cases he

/-- A chain with the given number of parent links leads from a name to a base. -/
def Leads (g : ClassGraph) (links : Nat) (name base : Text) : Prop :=
  ∃ chain : Nat → Text, chain 0 = name ∧ chain links = base ∧
    ∀ i < links, g.IsParent (chain (i + 1)) (chain i)

theorem leads_zero_iff : g.Leads 0 name base ↔ name = base := by
  constructor
  · rintro ⟨chain, hfirst, hlast, -⟩
    exact hfirst.symm.trans hlast
  · intro h
    exact ⟨fun _ => name, rfl, h, fun i hi => absurd hi (Nat.not_lt_zero i)⟩

/-- The first link of a chain leads to the parent, and the others go on from there. -/
theorem leads_succ_iff :
    g.Leads (links + 1) name base ↔ ∃ parent, g.IsParent parent name ∧ g.Leads links parent base := by
  constructor
  · rintro ⟨chain, hfirst, hlast, hlinks⟩
    refine ⟨chain 1, hfirst ▸ hlinks 0 (by omega), fun i => chain (i + 1), rfl, hlast, ?_⟩
    intro i hi
    exact hlinks (i + 1) (by omega)
  · rintro ⟨parent, hparent, chain, hfirst, hlast, hlinks⟩
    refine ⟨fun i => Nat.casesOn i name chain, rfl, hlast, fun i hi => ?_⟩
    cases i with
    | zero =>
        show g.IsParent (chain 0) name
        rw [hfirst]
        exact hparent
    | succ i => exact hlinks i (by omega)

/-- A chain does not lead out of names that have their parents among them. -/
theorem Leads.mem_of_closed {names : List Text} (h : g.Leads links name base)
    (hclosed : ∀ n ∈ names, ∀ p, g.IsParent p n → p ∈ names) (hname : name ∈ names) :
    base ∈ names := by
  induction links generalizing name with
  | zero => exact leads_zero_iff.mp h ▸ hname
  | succ links ih =>
      obtain ⟨parent, hparent, hrest⟩ := leads_succ_iff.mp h
      exact ih hrest (hclosed name hname parent hparent)

/-- Past the first link, a chain is one from the parent, which may be the base. -/
theorem exists_leads_succ_iff (hparent : g.IsParent parent name) :
    (∃ links, g.Leads (links + 1) name base) ↔
      parent = base ∨ ∃ links, g.Leads (links + 1) parent base := by
  constructor
  · rintro ⟨links, h⟩
    obtain ⟨other, hother, hrest⟩ := leads_succ_iff.mp h
    rw [hother.eq hparent] at hrest
    cases links with
    | zero => exact Or.inl (leads_zero_iff.mp hrest)
    | succ links => exact Or.inr ⟨links, hrest⟩
  · rintro (h | ⟨links, h⟩)
    · exact ⟨0, leads_succ_iff.mpr ⟨parent, hparent, leads_zero_iff.mpr h⟩⟩
    · exact ⟨links + 1, leads_succ_iff.mpr ⟨parent, hparent, h⟩⟩

/-- No chain starts at a name without a parent. -/
theorem not_exists_leads_succ (h : ∀ p, ¬ g.IsParent p name) :
    ¬ ∃ links, g.Leads (links + 1) name base := by
  rintro ⟨links, hleads⟩
  obtain ⟨p, hp, -⟩ := leads_succ_iff.mp hleads
  exact h p hp

/-- **The walk finds the base that a chain leads to.** It has come to a class by names other than the
base, of which every other has its parent among them. -/
theorem climb_eq_true_iff {passed : List Text} {e : Entity} (hname : g.get? name = some e)
    (hmem : name ∈ passed) (hbase : base ∉ passed)
    (hclosed : ∀ n ∈ passed, n ≠ name → ∀ p, g.IsParent p n → p ∈ passed) :
    g.climb base passed e = true ↔ ∃ links, g.Leads (links + 1) name base := by
  fun_induction climb g base passed e generalizing name with
  | case1 passed e hnone =>
      refine iff_of_false Bool.false_ne_true (not_exists_leads_succ ?_)
      rintro p ⟨hne, found, hfound, rfl⟩
      rw [hname] at hfound
      cases hfound
      exact hne hnone
  | case2 passed e hsome hfound =>
      have hparent : g.IsParent e.parent name := ⟨hsome, e, hname, rfl⟩
      exact iff_of_true rfl ((exists_leads_succ_iff hparent).mpr (Or.inl hfound))
  | case3 passed e hsome hother hpassed =>
      have hparent : g.IsParent e.parent name := ⟨hsome, e, hname, rfl⟩
      -- the walk has come round: now every name passed has its parent among them
      have hround : ∀ n ∈ passed, ∀ p, g.IsParent p n → p ∈ passed := by
        intro n hn p hp
        by_cases heq : n = name
        · subst heq
          exact hp.eq hparent ▸ hpassed
        · exact hclosed n hn heq p hp
      refine iff_of_false Bool.false_ne_true ?_
      rintro ⟨links, hleads⟩
      exact hbase (hleads.mem_of_closed hround hmem)
  | case4 passed e hsome hother hpassed hmissing =>
      have hparent : g.IsParent e.parent name := ⟨hsome, e, hname, rfl⟩
      have hstop : ¬ ∃ links, g.Leads (links + 1) e.parent base :=
        not_exists_leads_succ (not_isParent_of_missing hmissing)
      rw [exists_leads_succ_iff hparent]
      exact iff_of_false Bool.false_ne_true (not_or.mpr ⟨hother, hstop⟩)
  | case5 passed e hsome hother hpassed next hnext ih =>
      have hparent : g.IsParent e.parent name := ⟨hsome, e, hname, rfl⟩
      rw [exists_leads_succ_iff hparent, or_iff_right hother]
      refine ih hnext List.mem_cons_self ?_ ?_
      · intro hmember
        rcases List.mem_cons.mp hmember with heq | hmember
        · exact hother heq.symm
        · exact hbase hmember
      · intro n hn hne p hp
        rcases List.mem_cons.mp hn with heq | hn
        · exact absurd heq hne
        · by_cases heq : n = name
          · subst heq
            rw [hp.eq hparent]
            exact List.mem_cons_self
          · exact List.mem_cons_of_mem _ (hclosed n hn heq p hp)

/-- **A class is derived from the base that its parents lead to.** The class is the base, or a chain of
one or more parent links leads from it to the base. -/
theorem derivesFrom_iff_chain (g : ClassGraph) (name base : Text) :
    g.derivesFrom name base = true ↔
      name = base ∨ ∃ links, 1 ≤ links ∧ g.Leads links name base := by
  have hsucc : (∃ links, 1 ≤ links ∧ g.Leads links name base) ↔
      ∃ links, g.Leads (links + 1) name base := by
    constructor
    · rintro ⟨links, hpos, hleads⟩
      exact ⟨links - 1, (Nat.sub_add_cancel hpos).symm ▸ hleads⟩
    · rintro ⟨links, hleads⟩
      exact ⟨links + 1, by omega, hleads⟩
  rw [hsucc, derivesFrom]
  split
  · next heq => exact iff_of_true rfl (Or.inl heq)
  · next hne =>
    rw [or_iff_right hne]
    split
    · next hmissing =>
      exact iff_of_false Bool.false_ne_true
        (not_exists_leads_succ (not_isParent_of_missing hmissing))
    · next e hfound =>
      apply climb_eq_true_iff hfound List.mem_cons_self
      · exact fun hmem => hne (List.mem_singleton.mp hmem).symm
      · exact fun n hn hother => absurd (List.mem_singleton.mp hn) hother

end Registrar.ClassGraph
