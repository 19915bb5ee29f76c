import Openisa.Dynamic.AdjustSymbol
import Openisa.Dynamic.CheckedRun

/-! The third pass: room in `.rel.dyn` for the relocations that were counted for each symbol. -/

namespace Openisa.Dynamic

open Openisa.Bfd
open Openisa.Elf
open Openisa.Got
open Openisa.Library

variable {η : Type}

structure SizeState (η : Type) where
  table : SymbolTable η
  relDyn : RelDyn η
  textrel : Bool

def copiesRelocsP (link : DynLink) (s : MipsSymbol η) : Bool :=
  !link.relocatable && s.possiblyDynamicRelocs ≠ 0 &&
    (s.entry.type == .defweak || !s.entry.defRegular || link.shared) &&
    -- an undefined weak symbol that is not visible resolves to zero
    !(s.entry.type == .undefweak && !s.entry.defaultVisibility)

def MipsSymbol.forDynamicReloc (link : DynLink) (s : MipsSymbol η) : MipsSymbol η :=
  { s with
    dynamic := s.dynamic || (s.entry.type == .undefweak && !s.forcedLocal)
    globalGotArea := if !link.isVxworks && ggaNumber .relocOnly < ggaNumber s.globalGotArea
      then .relocOnly else s.globalGotArea
    entry := { s.entry with gotOnlyForCalls := s.entry.gotOnlyForCalls && link.isVxworks } }

section Table

variable [DecidableEq η]

def allocateDynrelocs (link : DynLink) (h : η) (st : SizeState η) : SizeState η :=
  let s := st.table.symbol h
  if link.isVxworks && !link.shared then st
  -- the relocations against an indirect symbol are those of its target
  else if st.table.links.root h ≠ h then st
  else if !copiesRelocsP link s then st
  else
    { table := st.table.modify h (MipsSymbol.forDynamicReloc link)
      relDyn := st.relDyn.mipsElfAllocateDynamicRelocations link (.global h) s.possiblyDynamicRelocs
      textrel := st.textrel || s.readonlyReloc }

/-- A walk over the hash table, which comes to each entry once. -/
structure Traversal (η : Type) where
  order : List η
  nodup : order.Nodup
  complete : ∀ h, h ∈ order

def allocateAll (link : DynLink) (st : SizeState η) (order : List η) : SizeState η :=
  order.foldl (fun st h => allocateDynrelocs link h st) st

end Table

/-- The symbols after they were walked over: nothing that a dynamic relocation depends on has changed. -/
structure SameSymbols (table table' : SymbolTable η) : Prop where
  links : table'.links = table.links
  counter : ∀ h, (table'.symbol h).possiblyDynamicRelocs = (table.symbol h).possiblyDynamicRelocs
  entry : ∀ h, ∃ only, (table'.symbol h).entry = { (table.symbol h).entry with gotOnlyForCalls := only }

theorem SameSymbols.refl (table : SymbolTable η) : SameSymbols table table :=
  ⟨rfl, fun _ => rfl, fun h => ⟨(table.symbol h).entry.gotOnlyForCalls, rfl⟩⟩

theorem SameSymbols.trans {table table' table'' : SymbolTable η} (first : SameSymbols table table')
    (second : SameSymbols table' table'') : SameSymbols table table'' where
  links := second.links.trans first.links
  counter h := (second.counter h).trans (first.counter h)
  entry h := by
    obtain ⟨only, same⟩ := first.entry h
    obtain ⟨only', same'⟩ := second.entry h
    exact ⟨only', by rw [same', same]⟩

variable [DecidableEq η] {link : DynLink} {st : SizeState η}

def symbolRoom (link : DynLink) (table : SymbolTable η) (h : η) : Nat :=
  if table.links.root h = h ∧ copiesRelocsP link (table.symbol h) = true then
    (table.symbol h).possiblyDynamicRelocs.toNat % 2 ^ 29
  else 0

omit [DecidableEq η] in
theorem copies_relocs_congr {s s' : MipsSymbol η} (counter : s'.possiblyDynamicRelocs = s.possiblyDynamicRelocs)
    {only : Bool} (entry : s'.entry = { s.entry with gotOnlyForCalls := only }) :
    copiesRelocsP link s' = copiesRelocsP link s := by
  unfold copiesRelocsP
  rw [counter, entry]

theorem symbol_room_congr {table table' : SymbolTable η} (same : SameSymbols table table') (h : η) :
    symbolRoom link table' h = symbolRoom link table h := by
  obtain ⟨only, entry⟩ := same.entry h
  unfold symbolRoom
  rw [same.links, same.counter h, copies_relocs_congr (same.counter h) entry]

theorem allocate_symbols (link : DynLink) (h : η) (st : SizeState η) :
    SameSymbols st.table (allocateDynrelocs link h st).table := by
  unfold allocateDynrelocs
  dsimp only
  split
  · exact .refl _
  split
  · exact .refl _
  split
  · exact .refl _
  refine ⟨rfl, fun h' => ?_, fun h' => ?_⟩
  · by_cases own : h' = h
    · subst own
      rw [SymbolTable.modify_symbol]
      rfl
    · rw [SymbolTable.modify_symbol_ne _ _ _ own]
  · by_cases own : h' = h
    · subst own
      rw [SymbolTable.modify_symbol]
      exact ⟨_, rfl⟩
    · rw [SymbolTable.modify_symbol_ne _ _ _ own]
      exact ⟨_, rfl⟩

theorem allocate_reserved (notVxworks : link.isVxworks = false) (h : η) (st : SizeState η) (who : RoomFor η) :
    (allocateDynrelocs link h st).relDyn.reserved who =
      st.relDyn.reserved who + if who = .global h then symbolRoom link st.table h else 0 := by
  unfold allocateDynrelocs
  dsimp only
  rw [if_neg (by simp [notVxworks])]
  by_cases rooted : st.table.links.root h = h
  · rw [if_neg (not_not.mpr rooted)]
    by_cases copies : copiesRelocsP link (st.table.symbol h) = true
    · have room : symbolRoom link st.table h = (st.table.symbol h).possiblyDynamicRelocs.toNat % 2 ^ 29 :=
        if_pos ⟨rooted, copies⟩
      rw [if_neg (by simp [copies]), RelDyn.reserved_allocate, rel_room notVxworks, room]
      simp only [eq_comm]
    · have room : symbolRoom link st.table h = 0 := if_neg fun both => copies both.2
      rw [if_pos (by simpa using copies), room]
      simp
  · have room : symbolRoom link st.table h = 0 := if_neg fun both => rooted both.1
    rw [if_pos rooted, room]
    simp

theorem allocate_all_symbols (link : DynLink) (order : List η) (st : SizeState η) :
    SameSymbols st.table (allocateAll link st order).table := by
  induction order generalizing st with
  | nil => exact .refl _
  | cons h rest ih => exact (allocate_symbols link h st).trans (ih _)

theorem allocate_all_reserved (notVxworks : link.isVxworks = false) (order : List η) (nodup : order.Nodup)
    (st : SizeState η) (h : η) :
    (allocateAll link st order).relDyn.reserved (.global h) =
      st.relDyn.reserved (.global h) + if h ∈ order then symbolRoom link st.table h else 0 := by
  induction order generalizing st with
  | nil => simp [allocateAll]
  | cons first rest ih =>
    obtain ⟨fresh, restNodup⟩ := List.nodup_cons.mp nodup
    have whole : allocateAll link st (first :: rest) = allocateAll link (allocateDynrelocs link first st) rest := rfl
    rw [whole, ih restNodup, allocate_reserved notVxworks, symbol_room_congr (allocate_symbols link first st)]
    by_cases own : h = first
    · subst own
      simp [fresh]
    · simp [own]

theorem allocate_all_others (notVxworks : link.isVxworks = false) (order : List η) (st : SizeState η)
    {who : RoomFor η} (other : ∀ h, who ≠ .global h) :
    (allocateAll link st order).relDyn.reserved who = st.relDyn.reserved who := by
  induction order generalizing st with
  | nil => rfl
  | cons first rest ih =>
    have whole : allocateAll link st (first :: rest) = allocateAll link (allocateDynrelocs link first st) rest := rfl
    rw [whole, ih, allocate_reserved notVxworks, if_neg (other first), Nat.add_zero]

end Openisa.Dynamic
