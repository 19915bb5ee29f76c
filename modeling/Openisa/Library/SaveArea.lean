import Mathlib.Logic.Function.Basic
import Mathlib.Data.List.Nodup

/-! Values kept in the slots of a save area, under a layout that gives each register its slot. -/

namespace Openisa.Library.SaveArea

universe u v w

variable {ρ : Type u} {α : Type v} {V : Type w}

def saveAll [DecidableEq α] (regs : ρ → V) : List (ρ × α) → (α → V) → α → V
  | [], mem => mem
  | (r, a) :: rest, mem => saveAll regs rest (Function.update mem a (regs r))

def loadAll [DecidableEq ρ] (mem : α → V) : List (ρ × α) → (ρ → V) → ρ → V
  | [], regs => regs
  | (r, a) :: rest, regs => loadAll mem rest (Function.update regs r (mem a))

def Holds (layout : List (ρ × α)) (mem : α → V) (regs : ρ → V) : Prop :=
  ∀ p ∈ layout, mem p.2 = regs p.1

section Save

variable [DecidableEq α] (regs : ρ → V)

theorem save_all_outside (layout : List (ρ × α)) (mem : α → V) {a : α} (outside : a ∉ layout.map Prod.snd) :
    saveAll regs layout mem a = mem a := by
  induction layout generalizing mem with
  | nil => rfl
  | cons head rest ih =>
    rw [List.map_cons, List.mem_cons, not_or] at outside
    calc saveAll regs (head :: rest) mem a
        = Function.update mem head.2 (regs head.1) a := ih _ outside.2
      _ = mem a := Function.update_of_ne outside.1 _ _

theorem save_all_holds {layout : List (ρ × α)} (apart : (layout.map Prod.snd).Nodup) (mem : α → V) :
    Holds layout (saveAll regs layout mem) regs := by
  induction layout generalizing mem with
  | nil => simp [Holds]
  | cons head rest ih =>
    rw [List.map_cons, List.nodup_cons] at apart
    intro p member
    rcases List.mem_cons.mp member with rfl | later
    · calc saveAll regs (p :: rest) mem p.2
          = Function.update mem p.2 (regs p.1) p.2 := save_all_outside regs rest _ apart.1
        _ = regs p.1 := Function.update_self _ _ _
    · exact ih apart.2 _ p later

end Save

theorem Holds.congr {layout : List (ρ × α)} {mem mem' : α → V} {regs : ρ → V} (held : Holds layout mem regs)
    (same : ∀ a ∈ layout.map Prod.snd, mem' a = mem a) : Holds layout mem' regs := by
  intro p member
  rw [same _ (List.mem_map_of_mem member), held p member]

section Load

variable [DecidableEq ρ] (mem : α → V)

theorem load_all_outside (layout : List (ρ × α)) (regs : ρ → V) {r : ρ} (outside : r ∉ layout.map Prod.fst) :
    loadAll mem layout regs r = regs r := by
  induction layout generalizing regs with
  | nil => rfl
  | cons head rest ih =>
    rw [List.map_cons, List.mem_cons, not_or] at outside
    calc loadAll mem (head :: rest) regs r
        = Function.update regs head.1 (mem head.2) r := ih _ outside.2
      _ = regs r := Function.update_of_ne outside.1 _ _

theorem load_all_held {layout : List (ρ × α)} (apart : (layout.map Prod.fst).Nodup) {saved : ρ → V}
    (held : Holds layout mem saved) (regs : ρ → V) {r : ρ} (kept : r ∈ layout.map Prod.fst) :
    loadAll mem layout regs r = saved r := by
  induction layout generalizing regs with
  | nil => simp at kept
  | cons head rest ih =>
    rw [List.map_cons, List.nodup_cons] at apart
    by_cases later : r ∈ rest.map Prod.fst
    · exact ih apart.2 (fun p member => held p (List.mem_cons_of_mem _ member)) _ later
    · rw [List.map_cons, List.mem_cons, or_iff_left later] at kept
      subst kept
      calc loadAll mem (head :: rest) regs head.1
          = Function.update regs head.1 (mem head.2) head.1 := load_all_outside mem rest _ later
        _ = mem head.2 := Function.update_self _ _ _
        _ = saved head.1 := held head List.mem_cons_self

end Load

end Openisa.Library.SaveArea
