import Registrar.Proofs.Derivation

/-!
# Inherited roles

A class that takes a role, neither flagged nor a root, takes that of the root it reaches by parent links
(`roleOf_of_takesRole`). From its parent the same roots are reached, since the class is none itself
(`reaches_iff_of_isParent`). So along a link between two such classes the role stays, on every chain and
round every cycle, and also where a root is known as a parent only (`roles_inherited`).
-/

namespace Registrar

/-- The class gets its role from a root: it is no root itself, and no flag denies it a role. -/
structure Entity.TakesRole (e : Entity) : Prop where
  concrete : e.isAbstract = false
  spawnable : e.isNotSpawnable = false
  not_actor : e.name ≠ actorRoot
  not_component : e.name ≠ componentRoot

namespace ClassGraph

variable {g : ClassGraph} {name parent base : Text} {e : Entity}

/-- The base is reached from a name by parent links, however many. -/
def Reaches (g : ClassGraph) (name base : Text) : Prop :=
  ∃ links, g.Leads links name base

theorem reaches_iff :
    g.Reaches name base ↔ name = base ∨ ∃ links, g.Leads (links + 1) name base := by
  constructor
  · rintro ⟨links, h⟩
    cases links with
    | zero => exact Or.inl (leads_zero_iff.mp h)
    | succ links => exact Or.inr ⟨links, h⟩
  · rintro (h | ⟨links, h⟩)
    · exact ⟨0, leads_zero_iff.mpr h⟩
    · exact ⟨links + 1, h⟩

/-- The walk settles whether the base is reached. -/
theorem derivesFrom_iff_reaches : g.derivesFrom name base = true ↔ g.Reaches name base := by
  rw [reaches_iff]
  by_cases heq : name = base
  · exact iff_of_true (if_pos heq) (Or.inl heq)
  · rw [or_iff_right heq, derivesFrom, if_neg heq]
    cases hfound : g.get? name with
    | none =>
        exact iff_of_false Bool.false_ne_true
          (not_exists_leads_succ (not_isParent_of_missing hfound))
    | some e =>
        apply climb_eq_true_iff hfound List.mem_cons_self
        · exact fun hmem => heq (List.mem_singleton.mp hmem).symm
        · exact fun n hn hother => absurd (List.mem_singleton.mp hn) hother

/-- A base other than the class itself is reached through the parent. -/
theorem reaches_iff_of_isParent (hparent : g.IsParent parent name) (hne : name ≠ base) :
    g.Reaches name base ↔ g.Reaches parent base := by
  rw [reaches_iff, or_iff_right hne, exists_leads_succ_iff hparent, ← reaches_iff]

/-- Actors come before components; a class that reaches neither has no role. -/
theorem roleOf_of_takesRole (g : ClassGraph) (h : e.TakesRole) :
    g.roleOf e =
      if g.derivesFrom e.name Entity.actorRoot then .spawnable
      else if g.derivesFrom e.name Entity.componentRoot then .component
      else .none := by
  have hflags : ¬ (e.isAbstract || e.isNotSpawnable) = true := by
    rw [h.concrete, h.spawnable]
    exact Bool.false_ne_true
  rw [roleOf, if_neg hflags, if_neg (not_or.mpr ⟨h.not_actor, h.not_component⟩)]

/-- What the role of a class says about the roots that it reaches. -/
theorem roleOf_cases (g : ClassGraph) (h : e.TakesRole) :
    (g.roleOf e = .spawnable ∧ g.Reaches e.name Entity.actorRoot) ∨
    (g.roleOf e = .component ∧ ¬ g.Reaches e.name Entity.actorRoot ∧
      g.Reaches e.name Entity.componentRoot) ∨
    (g.roleOf e = .none ∧ ¬ g.Reaches e.name Entity.actorRoot ∧
      ¬ g.Reaches e.name Entity.componentRoot) := by
  rw [roleOf_of_takesRole g h, ← derivesFrom_iff_reaches, ← derivesFrom_iff_reaches]
  split
  · next hactor => exact Or.inl ⟨rfl, hactor⟩
  · next hactor =>
    split
    · next hcomponent => exact Or.inr (Or.inl ⟨rfl, hactor, hcomponent⟩)
    · next hcomponent => exact Or.inr (Or.inr ⟨rfl, hactor, hcomponent⟩)

/-- From a class and its parent the same roots are reached, so they have one role. -/
theorem roleOf_eq_of_isParent {child : Entity} (hchild : child.TakesRole) (hparent : e.TakesRole)
    (hlink : g.IsParent e.name child.name) : g.roleOf child = g.roleOf e := by
  have hactor : g.derivesFrom child.name Entity.actorRoot = g.derivesFrom e.name Entity.actorRoot := by
    rw [Bool.eq_iff_iff, derivesFrom_iff_reaches, derivesFrom_iff_reaches]
    exact reaches_iff_of_isParent hlink hchild.not_actor
  have hcomponent : g.derivesFrom child.name Entity.componentRoot =
      g.derivesFrom e.name Entity.componentRoot := by
    rw [Bool.eq_iff_iff, derivesFrom_iff_reaches, derivesFrom_iff_reaches]
    exact reaches_iff_of_isParent hlink hchild.not_component
  rw [roleOf_of_takesRole g hchild, roleOf_of_takesRole g hparent, hactor, hcomponent]

/-- **Roles are inherited.** A class and its parent have one role when both take roles. Such a class can
be spawned exactly when the root of actors is reached from it by parent links; it is a component exactly
when the root of components is reached and that of actors is not; and it has no role otherwise. -/
theorem roles_inherited (g : ClassGraph) :
    (∀ name child parent, g.get? name = some child → child.parent ≠ [] →
      g.get? child.parent = some parent → child.TakesRole → parent.TakesRole →
        g.roleOf child = g.roleOf parent) ∧
    ∀ name e, g.get? name = some e → e.TakesRole →
      (g.roleOf e = .spawnable ↔ g.Reaches name Entity.actorRoot) ∧
      (g.roleOf e = .component ↔
        g.Reaches name Entity.componentRoot ∧ ¬ g.Reaches name Entity.actorRoot) ∧
      (g.roleOf e = .none ↔
        ¬ g.Reaches name Entity.actorRoot ∧ ¬ g.Reaches name Entity.componentRoot) := by
  constructor
  · intro name child parent hchild hsome hparent htakes hparentTakes
    have hname : child.name = name := g.named name child hchild
    have hlink : g.IsParent parent.name child.name := by
      rw [g.named child.parent parent hparent, hname]
      exact ⟨hsome, child, hchild, rfl⟩
    exact roleOf_eq_of_isParent htakes hparentTakes hlink
  · intro name e he htakes
    rw [← g.named name e he]
    obtain ⟨hrole, hactor⟩ | ⟨hrole, hactor, hcomponent⟩ | ⟨hrole, hactor, hcomponent⟩ :=
      roleOf_cases g htakes
    · simp [hrole, hactor]
    · simp [hrole, hactor, hcomponent]
    · simp [hrole, hactor, hcomponent]

/-- Lamps are lights, and lights are actors. -/
def lamp : Entity := .ofAttributes "ALamp" "ALight" .class_ Dict.empty

def light : Entity := .ofAttributes "ALight" "AActor" .class_ Dict.empty

/-- Two classes that are each other's parents. -/
def echo : Entity := .ofAttributes "UEcho" "UVoice" .class_ Dict.empty

def voice : Entity := .ofAttributes "UVoice" "UEcho" .class_ Dict.empty

/-- No header declares the root of actors. -/
def lampGraph : ClassGraph :=
  (((empty.insert lamp).insert light).insert echo).insert voice

theorem roles_inherited_cycle :
    lamp.TakesRole ∧ light.TakesRole ∧ lampGraph.roleOf lamp = .spawnable ∧
      lampGraph.roleOf light = .spawnable ∧
      echo.TakesRole ∧ voice.TakesRole ∧ lampGraph.roleOf echo = .none ∧
      lampGraph.roleOf voice = .none := by
  obtain ⟨hlinks, hroles⟩ := roles_inherited lampGraph
  have hlamp : lamp.TakesRole := ⟨by decide, by decide, by decide, by decide⟩
  have hlight : light.TakesRole := ⟨by decide, by decide, by decide, by decide⟩
  have hecho : echo.TakesRole := ⟨by decide, by decide, by decide, by decide⟩
  have hvoice : voice.TakesRole := ⟨by decide, by decide, by decide, by decide⟩
  have hfound : lampGraph.get? light.name = some light := by decide
  have hactor : lampGraph.Reaches light.name Entity.actorRoot := by
    refine ⟨1, leads_succ_iff.mpr ⟨light.parent, ⟨by decide, light, hfound, rfl⟩, ?_⟩⟩
    exact leads_zero_iff.mpr (by decide)
  have hspawnable : lampGraph.roleOf light = .spawnable :=
    (hroles light.name light hfound hlight).1.mpr hactor
  have hnone : lampGraph.roleOf voice = .none := by decide +kernel
  have hfirst : lampGraph.roleOf lamp = lampGraph.roleOf light :=
    hlinks lamp.name lamp light (by decide) (by decide) (by decide) hlamp hlight
  have hsecond : lampGraph.roleOf echo = lampGraph.roleOf voice :=
    hlinks echo.name echo voice (by decide) (by decide) (by decide) hecho hvoice
  exact ⟨hlamp, hlight, hfirst.trans hspawnable, hspawnable, hecho, hvoice, hsecond.trans hnone, hnone⟩

end ClassGraph

end Registrar
