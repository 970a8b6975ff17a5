import Clboss.MachineProofs
import Clboss.OrderedMapProofs
import Clboss.UniqueTableProofs
import Mathlib.Data.Char
import Mathlib.Data.Finset.Dedup
import Mathlib.Data.Finset.Erase
import Mathlib.Data.Finset.Insert
import Mathlib.Data.List.Lex
import Mathlib.Data.List.Sort
import Mathlib.Logic.Function.Basic

/-! # `Boss::Mod::UnmanagedManager` — the tags of unmanaged nodes

    Whoever can leave a node unmanaged provides a TAG and a function that is told
    which nodes enter and leave.  The command `clboss-unmanage` compares the tags
    stored for a node with those given, tells the providers the difference, and
    then stores the new tags.

    The tags given are checked; the tags stored are not, and `tag_informs[tag]`
    of a tag that nobody provides makes an empty function and calls it.  By then
    others may have been told, and what they were told is not taken back when the
    transaction is.  `Clear` is the condition under which neither happens. -/

namespace UnmanagedManager

open Machine UniqueTable

variable {N : Type} [DecidableEq N]

abbrev Tag := List Char

/-! ## The code -/

/-- A `std::set`: in order, and without repetitions. -/
def toSet (l : List Tag) : List Tag := l.dedup.insertionSort (· ≤ ·)

/-- `split_tags`. -/
def splitTags (tagspec : List Char) : List Tag :=
  toSet ((tagspec.splitOn ',').filter (fun tag => tag ≠ []))

/-- The rows of `"UnmanagedManager_tags"`, which `nodedbid` joins to the nodes. -/
abbrev Rows (N : Type) [DecidableEq N] := Table (id : N × Tag → N × Tag)

/-- `get_tags`. -/
def getTags (rows : Rows N) (node : N) : List Tag :=
  toSet ((rows.rows.filter (fun r => r.1 = node)).map Prod.snd)

/-- `set_tags`: first erase, then insert. -/
def setTags (rows : Rows N) (node : N) (tags : List Tag) : Rows N :=
  tags.foldl (fun rows tag => rows.insertOrIgnore (node, tag))
    (rows.deleteWhere (fun r => r.1 = node))

/-- In `tag_informs` a tag has the function of its provider, or an empty one (`false`).
    The set of each provider, and what the providers were told, are theirs. -/
structure State (N : Type) [DecidableEq N] where
  rows      : Rows N
  informs   : OrderedMap Tag Bool
  unmanaged : Tag → Finset N
  told      : List (N × Tag × Bool)

inductive Output where
  | emptyCalled (tag : Tag)
  | response
  | fail
deriving DecidableEq

/-- `tag_informs[tag](node, flag)`: whether it returned. -/
def State.inform (s : State N) (node : N) (tag : Tag) (flag : Bool) : State N × Bool :=
  match s.informs.find tag with
  | some true  =>
      let members := s.unmanaged tag
      ({ s with
        unmanaged := Function.update s.unmanaged tag
          (if flag then insert node members else members.erase node)
        told := s.told ++ [(node, tag, flag)] }, true)
  | some false => (s, false)
  | none       => ({ s with informs := s.informs.assign tag false }, false)

/-- The functions are called in turn, up to one that throws. -/
def State.informAll (node : N) : List (Tag × Bool) → State N → State N × Option Tag
  | [], s => (s, none)
  | (tag, flag) :: calls, s =>
      match s.inform node tag flag with
      | (s', true)  => informAll node calls s'
      | (s', false) => (s', some tag)

/-- The old tags to be removed, then the new ones to be added. -/
def changes (oldTags newTags : List Tag) : List (Tag × Bool) :=
  (oldTags.filter (fun tag => tag ∉ newTags)).map (fun tag => (tag, false))
    ++ (newTags.filter (fun tag => tag ∉ oldTags)).map (fun tag => (tag, true))

/-- A command: what its parameters read as, if they do, and whether writing to the
    database works. -/
structure Command (N : Type) where
  params  : Option (N × List Char)
  written : Bool

/-- `unmanage`. -/
def State.unmanage (s : State N) (c : Command N) : State N × List Output :=
  match c.params with
  | none                 => (s, [.fail])
  | some (node, tagspec) =>
      let newTags := splitTags tagspec
      if newTags.any (fun tag => (s.informs.find tag).isNone) then (s, [.fail])
      else
        match s.informAll node (changes (getTags s.rows node) newTags) with
        | (s', some tag) => (s', [.emptyCalled tag, .fail])
        | (s', none)     =>
            if c.written then ({ s' with rows := setTags s'.rows node newTags }, [.response])
            else (s', [.fail])

def step (s : State N) (c : Command N) : Option (State N × List Output) := some (s.unmanage c)

/-- What `initial_inform` tells the provider of a tag. -/
def initialTold (rows : Rows N) (tag : Tag) : List (N × Tag × Bool) :=
  (rows.rows.filter (fun r => r.2 = tag)).map (fun r => (r.1, r.2, true))

/-- After the solicitation, with whatever an earlier version stored. -/
def start (rows : Rows N) (providers : OrderedMap Tag Unit) : State N where
  rows      := rows
  informs   := providers.mapValues (fun _ _ => true)
  unmanaged := fun tag =>
    if (providers.find tag).isSome then ((initialTold rows tag).map Prod.fst).toFinset else ∅
  told      := providers.entries.flatMap (fun p => initialTold rows p.1)

/-! ## What the command is to do -/

/-- What a provider was told of a node. -/
def tellings (tag : Tag) (node : N) (told : List (N × Tag × Bool)) : List Bool :=
  told.filterMap (fun x => if x.1 = node ∧ x.2.1 = tag then some x.2.2 else none)

/-- Entering and leaving in turn, from being in or out: where that ends. -/
def follow : Bool → List Bool → Option Bool
  | b, []      => some b
  | b, x :: xs => if x = b then none else follow x xs

/-- Every provider was told of every node what is stored. -/
def Synced (providers : OrderedMap Tag Unit) (s : State N) : Prop :=
  ∀ tag, (providers.find tag).isSome → ∀ node,
    follow false (tellings tag node s.told) = some (decide ((node, tag) ∈ s.rows.rows))

/-- The command changes nothing if it fails, and leaves the providers in step if it
    succeeds. -/
def Ok (providers : OrderedMap Tag Unit) (s : State N) (c : Command N) : Prop :=
  (.fail ∈ (s.unmanage c).2 →
      (s.unmanage c).1.rows = s.rows ∧ (s.unmanage c).1.unmanaged = s.unmanaged)
    ∧ (.response ∈ (s.unmanage c).2 → Synced providers (s.unmanage c).1)
    ∧ ∀ tag, .emptyCalled tag ∉ (s.unmanage c).2

/-- Every stored tag that the command removes is provided, and if it cannot be written then
    there is nothing to tell. -/
def Clear (providers : OrderedMap Tag Unit) (s : State N) (c : Command N) : Prop :=
  ∀ node tagspec, c.params = some (node, tagspec) →
    (∀ tag ∈ splitTags tagspec, (providers.find tag).isSome) →
    (∀ tag, (node, tag) ∈ s.rows.rows → tag ∉ splitTags tagspec → (providers.find tag).isSome)
      ∧ (c.written = false → ∀ tag, (node, tag) ∈ s.rows.rows ↔ tag ∈ splitTags tagspec)

/-! ## Sets of tags -/

theorem mem_toSet {l : List Tag} {tag : Tag} : tag ∈ toSet l ↔ tag ∈ l := by
  unfold toSet
  rw [(List.perm_insertionSort _ _).mem_iff, List.mem_dedup]

theorem nodup_toSet (l : List Tag) : (toSet l).Nodup :=
  (List.perm_insertionSort _ _).nodup_iff.mpr (List.nodup_dedup l)

theorem mem_getTags {rows : Rows N} {node : N} {tag : Tag} :
    tag ∈ getTags rows node ↔ (node, tag) ∈ rows.rows := by
  unfold getTags
  rw [mem_toSet, List.mem_map]
  constructor
  · rintro ⟨⟨n, t⟩, hr, rfl⟩
    obtain ⟨hr, hn⟩ := List.mem_filter.mp hr
    rwa [← show n = node from of_decide_eq_true hn]
  · intro h
    exact ⟨(node, tag), List.mem_filter.mpr ⟨h, decide_eq_true rfl⟩, rfl⟩

theorem mem_insertOrIgnore {rows : Rows N} {r x : N × Tag} :
    x ∈ (rows.insertOrIgnore r).rows ↔ x ∈ rows.rows ∨ x = r := by
  unfold Table.insertOrIgnore
  split
  · exact List.mem_append.trans (or_congr_right List.mem_singleton)
  · rename_i hsome
    refine ⟨Or.inl, fun h => h.elim id (fun heq => ?_)⟩
    obtain ⟨r', hr'⟩ := Option.ne_none_iff_exists'.mp hsome
    rw [heq]
    obtain ⟨hmem, hkey⟩ := (Table.get_eq_some_iff rows _ _).mp hr'
    rwa [show r' = r from hkey] at hmem

/-- **SPEC (set_tags)**. -/
theorem mem_setTags {rows : Rows N} {node : N} {tags : List Tag} {x : N × Tag} :
    x ∈ (setTags rows node tags).rows
      ↔ if x.1 = node then x.2 ∈ tags else x ∈ rows.rows := by
  have hfold : ∀ (tags : List Tag) (rows : Rows N),
      x ∈ (tags.foldl (fun rows tag => rows.insertOrIgnore (node, tag)) rows).rows
        ↔ x ∈ rows.rows ∨ x.1 = node ∧ x.2 ∈ tags := by
    intro tags
    induction tags with
    | nil => simp
    | cons tag tags ih =>
        intro rows
        rw [List.foldl_cons, ih, mem_insertOrIgnore, or_assoc, List.mem_cons, Prod.ext_iff,
          ← and_or_left]
  have herased : x ∈ (rows.deleteWhere (fun r => r.1 = node)).rows
      ↔ x ∈ rows.rows ∧ x.1 ≠ node := by
    unfold Table.deleteWhere
    rw [List.mem_filter, Bool.not_eq_true', decide_eq_false_iff_not]
  unfold setTags
  rw [hfold, herased]
  split
  · rename_i heq
    simp [heq]
  · rename_i hne
    simp [hne]

/-! ## Tellings -/

theorem follow_append (l l' : List Bool) :
    ∀ b, follow b (l ++ l') = (follow b l).bind (fun b' => follow b' l') := by
  induction l with
  | nil => exact fun b => rfl
  | cons x l ih =>
      intro b
      show (if x = b then none else follow x (l ++ l')) = _
      rw [ih x]
      show _ = (if x = b then none else follow x l).bind _
      split <;> rfl

/-- It ends with the last that was told. -/
theorem follow_eq_getLastD {l : List Bool} :
    ∀ {b b' : Bool}, follow b l = some b' → b' = l.getLastD b := by
  induction l with
  | nil =>
      intro b b' h
      cases h
      rfl
  | cons x l ih =>
      intro b b' h
      unfold follow at h
      split at h
      · cases h
      · rw [List.getLastD_cons]
        exact ih h

theorem tellings_append (tag : Tag) (node : N) (l l' : List (N × Tag × Bool)) :
    tellings tag node (l ++ l') = tellings tag node l ++ tellings tag node l' :=
  List.filterMap_append

/-- One of a list without repetitions is picked once. -/
theorem filterMap_pick {α : Type} [DecidableEq α] [BEq α] [LawfulBEq α] {l : List α}
    (hnodup : l.Nodup) (a : α) (b : Bool) :
    l.filterMap (fun x => if x = a then some b else none) = if a ∈ l then [b] else [] := by
  induction l with
  | nil => rfl
  | cons x l ih =>
      obtain ⟨hx, hl⟩ := List.nodup_cons.mp hnodup
      rw [List.filterMap_cons, ih hl]
      by_cases heq : x = a
      · subst heq
        simp [hx]
      · simp [heq, Ne.symm heq]

/-- What the changes are for one tag. -/
def change (oldTags newTags : List Tag) (tag : Tag) : List Bool :=
  if tag ∈ oldTags then (if tag ∈ newTags then [] else [false])
  else if tag ∈ newTags then [true] else []

theorem tellings_changes {oldTags newTags : List Tag} (hold : oldTags.Nodup)
    (hnew : newTags.Nodup) (node n : N) (tag : Tag) :
    tellings tag n ((changes oldTags newTags).map (fun c => (node, c)))
      = if n = node then change oldTags newTags tag else [] := by
  have hpart : ∀ (l : List Tag) (flag : Bool), l.Nodup →
      tellings tag n ((l.map (fun t => (t, flag))).map (fun c => (node, c)))
        = if n = node ∧ tag ∈ l then [flag] else [] := by
    intro l flag hl
    unfold tellings
    rw [List.map_map, List.filterMap_map]
    show l.filterMap (fun t => if node = n ∧ t = tag then some flag else none) = _
    by_cases hn : n = node
    · simp only [hn, true_and]
      exact filterMap_pick hl tag flag
    · simp [hn, Ne.symm hn]
  unfold changes change
  rw [List.map_append, tellings_append, hpart _ _ (hold.filter _), hpart _ _ (hnew.filter _)]
  simp only [List.mem_filter, decide_eq_true_eq]
  by_cases hn : n = node
  · by_cases ho : tag ∈ oldTags
    · by_cases ht : tag ∈ newTags <;> simp [hn, ho, ht]
    · by_cases ht : tag ∈ newTags <;> simp [hn, ho, ht]
  · simp [hn]

/-! ## Steps -/

/-- **SPEC (inform)**: the function of a provider. -/
theorem inform_provided {s : State N} {tag : Tag} (node : N) (flag : Bool)
    (h : s.informs.find tag = some true) :
    s.inform node tag flag = ({ s with
      unmanaged := Function.update s.unmanaged tag
        (if flag then insert node (s.unmanaged tag) else (s.unmanaged tag).erase node)
      told := s.told ++ [(node, tag, flag)] }, true) := by
  unfold State.inform
  rw [h]

/-- The providers' sets hold what they were last told. -/
def Kept (s : State N) : Prop :=
  ∀ tag node, node ∈ s.unmanaged tag ↔ (tellings tag node s.told).getLastD false = true

theorem kept_inform {s : State N} (node : N) (tag : Tag) (flag : Bool) (h : Kept s) :
    Kept (s.inform node tag flag).1 := by
  unfold State.inform
  split
  · intro t n
    have hold := h t n
    rw [tellings_append]
    by_cases htag : t = tag
    · subst htag
      simp only [Function.update_self]
      by_cases hn : n = node
      · subst hn
        have hone : tellings t n [(n, t, flag)] = [flag] := by simp [tellings]
        rw [hone, List.getLastD_concat]
        cases flag <;> simp
      · have hnone : tellings t n [(node, t, flag)] = [] := by simp [tellings, Ne.symm hn]
        rw [hnone, List.append_nil, ← hold]
        cases flag <;> simp [hn]
    · have hnone : tellings t n [(node, tag, flag)] = [] := by simp [tellings, Ne.symm htag]
      rw [hnone, List.append_nil, ← hold]
      simp only [Function.update_of_ne htag]
  · exact h
  · exact h

/-- **SPEC**: when all are provided, all are told. -/
theorem informAll_provided {node : N} {calls : List (Tag × Bool)} :
    ∀ {s : State N}, Kept s → (∀ c ∈ calls, s.informs.find c.1 = some true) →
      (s.informAll node calls).2 = none ∧ (s.informAll node calls).1.rows = s.rows
        ∧ (s.informAll node calls).1.informs = s.informs
        ∧ (s.informAll node calls).1.told = s.told ++ calls.map (fun c => (node, c))
        ∧ Kept (s.informAll node calls).1 := by
  induction calls with
  | nil =>
      intro s hkept _
      exact ⟨rfl, rfl, rfl, (List.append_nil _).symm, hkept⟩
  | cons c calls ih =>
      obtain ⟨tag, flag⟩ := c
      intro s hkept h
      have hinform := inform_provided node flag (h _ List.mem_cons_self)
      have hkept' := kept_inform node tag flag hkept
      unfold State.informAll
      rw [hinform] at hkept' ⊢
      obtain ⟨hnone, hrows, hinforms, htold, hkept''⟩ := ih hkept'
        (fun c hc => h c (List.mem_cons_of_mem _ hc))
      refine ⟨hnone, hrows, hinforms, ?_, hkept''⟩
      rw [htold, List.map_cons, List.append_assoc]
      rfl

/-- **SPEC**: when one is not provided, an empty function is called. -/
theorem informAll_unprovided (node : N) {calls : List (Tag × Bool)} :
    ∀ {s : State N}, (∃ c ∈ calls, s.informs.find c.1 ≠ some true) →
      ∃ tag, (s.informAll node calls).2 = some tag := by
  induction calls with
  | nil =>
      rintro s ⟨c, hc, -⟩
      cases hc
  | cons c calls ih =>
      obtain ⟨tag, flag⟩ := c
      intro s h
      unfold State.informAll
      by_cases htag : s.informs.find tag = some true
      · rw [inform_provided node flag htag]
        obtain ⟨c, hc, hne⟩ := h
        rcases List.mem_cons.mp hc with rfl | hc
        · exact absurd htag hne
        · exact ih ⟨c, hc, hne⟩
      · have hno : (s.inform node tag flag).2 = false := by
          unfold State.inform
          split
          · rename_i hsome
            exact absurd hsome htag
          · rfl
          · rfl
        refine ⟨tag, ?_⟩
        split
        · rename_i htrue
          rw [htrue] at hno
          cases hno
        · rfl

/-! ## Commands -/

variable {providers : OrderedMap Tag Unit} {s : State N}

/-- **INVARIANT**: exactly the provided tags have functions, and the providers are in step. -/
structure Inv (providers : OrderedMap Tag Unit) (s : State N) : Prop where
  informs : ∀ tag, s.informs.find tag = (providers.find tag).map (fun _ => true)
  kept    : Kept s
  synced  : Synced providers s

theorem Inv.provided_iff (h : Inv providers s) (tag : Tag) :
    s.informs.find tag = some true ↔ (providers.find tag).isSome := by
  rw [h.informs tag]
  cases providers.find tag <;> simp

theorem Inv.known_iff (h : Inv providers s) (newTags : List Tag) :
    newTags.any (fun tag => (s.informs.find tag).isNone) = false
      ↔ ∀ tag ∈ newTags, (providers.find tag).isSome := by
  rw [List.any_eq_false]
  refine forall₂_congr (fun tag _ => ?_)
  rw [h.informs tag, Option.isNone_map, ← Option.not_isSome, Bool.not_eq_true', Bool.not_eq_false]

/-- Who is in and out. -/
theorem Inv.mem_unmanaged (h : Inv providers s) {tag : Tag} (htag : (providers.find tag).isSome)
    (node : N) : node ∈ s.unmanaged tag ↔ (node, tag) ∈ s.rows.rows := by
  rw [h.kept tag node, ← follow_eq_getLastD (h.synced tag htag node), decide_eq_true_eq]

/-- A change of a tag takes what is stored to what is given. -/
theorem follow_change {oldTags newTags : List Tag} (tag : Tag) :
    follow (decide (tag ∈ oldTags)) (change oldTags newTags tag)
      = some (decide (tag ∈ newTags)) := by
  unfold change
  by_cases ho : tag ∈ oldTags
  · by_cases hn : tag ∈ newTags <;> simp [ho, hn, follow]
  · by_cases hn : tag ∈ newTags <;> simp [ho, hn, follow]

theorem mem_changes {oldTags newTags : List Tag} {tag : Tag} {flag : Bool} :
    (tag, flag) ∈ changes oldTags newTags
      ↔ (tag ∈ oldTags ∧ tag ∉ newTags) ∧ flag = false
        ∨ (tag ∈ newTags ∧ tag ∉ oldTags) ∧ flag = true := by
  have hpart : ∀ (l l' : List Tag) (b : Bool),
      (tag, flag) ∈ (l.filter (fun t => t ∉ l')).map (fun t => (t, b))
        ↔ (tag ∈ l ∧ tag ∉ l') ∧ flag = b := by
    intro l l' b
    rw [List.mem_map]
    constructor
    · rintro ⟨t, ht, heq⟩
      obtain ⟨rfl, rfl⟩ := Prod.ext_iff.mp heq
      obtain ⟨ht, hne⟩ := List.mem_filter.mp ht
      exact ⟨⟨ht, of_decide_eq_true hne⟩, rfl⟩
    · rintro ⟨⟨ht, hne⟩, rfl⟩
      exact ⟨tag, List.mem_filter.mpr ⟨ht, decide_eq_true hne⟩, rfl⟩
  unfold changes
  rw [List.mem_append, hpart, hpart]

/-- What becomes of a command: it is refused, it calls an empty function, or everyone
    concerned is told. -/
theorem unmanage_cases (h : Inv providers s) (c : Command N) :
    (s.unmanage c = (s, [.fail])
        ∧ ∀ node tagspec, c.params = some (node, tagspec) →
          ¬ ∀ tag ∈ splitTags tagspec, (providers.find tag).isSome)
      ∨ ∃ node tagspec, c.params = some (node, tagspec)
        ∧ (∀ tag ∈ splitTags tagspec, (providers.find tag).isSome)
        ∧ ((∃ tag, ((node, tag) ∈ s.rows.rows ∧ tag ∉ splitTags tagspec)
              ∧ ¬ (providers.find tag).isSome)
            ∧ (∃ tag s', s.unmanage c = (s', [.emptyCalled tag, .fail]))
          ∨ (∀ tag, (node, tag) ∈ s.rows.rows → tag ∉ splitTags tagspec →
              (providers.find tag).isSome)
            ∧ ∃ s' : State N, Kept s' ∧ s'.rows = s.rows ∧ s'.informs = s.informs
              ∧ s'.told = s.told ++ (changes (getTags s.rows node) (splitTags tagspec)).map
                (fun c => (node, c))
              ∧ s.unmanage c = if c.written then
                  ({ s' with rows := setTags s'.rows node (splitTags tagspec) }, [.response])
                else (s', [.fail])) := by
  unfold State.unmanage
  cases hparams : c.params with
  | none => exact Or.inl ⟨rfl, fun _ _ => nofun⟩
  | some p =>
      obtain ⟨node, tagspec⟩ := p
      simp only
      by_cases hknown : (splitTags tagspec).any (fun tag => (s.informs.find tag).isNone) = false
      · have hprovided := (h.known_iff _).mp hknown
        rw [hknown, if_neg Bool.false_ne_true]
        refine Or.inr ⟨node, tagspec, rfl, hprovided, ?_⟩
        by_cases hremoved : ∀ tag, (node, tag) ∈ s.rows.rows → tag ∉ splitTags tagspec →
            (providers.find tag).isSome
        · right
          have hcalls : ∀ c ∈ changes (getTags s.rows node) (splitTags tagspec),
              s.informs.find c.1 = some true := by
            rintro ⟨tag, flag⟩ hc
            rw [h.provided_iff]
            rcases mem_changes.mp hc with ⟨⟨ho, hn⟩, -⟩ | ⟨⟨hn, -⟩, -⟩
            · exact hremoved tag (mem_getTags.mp ho) hn
            · exact hprovided tag hn
          obtain ⟨hnone, hrows, hinforms, htold, hkept⟩ := informAll_provided h.kept hcalls
          generalize s.informAll node (changes (getTags s.rows node) (splitTags tagspec)) = result
            at hnone hrows hinforms htold hkept ⊢
          obtain ⟨s', r⟩ := result
          replace hnone : r = none := hnone
          subst hnone
          exact ⟨hremoved, s', hkept, hrows, hinforms, htold, rfl⟩
        · left
          simp only [not_forall] at hremoved
          obtain ⟨tag, hold, hnew, hno⟩ := hremoved
          have hcall : ∃ c ∈ changes (getTags s.rows node) (splitTags tagspec),
              s.informs.find c.1 ≠ some true :=
            ⟨(tag, false), mem_changes.mpr (Or.inl ⟨⟨mem_getTags.mpr hold, hnew⟩, rfl⟩),
              fun hsome => hno ((h.provided_iff tag).mp hsome)⟩
          obtain ⟨tag', hsome⟩ := informAll_unprovided node hcall
          generalize s.informAll node (changes (getTags s.rows node) (splitTags tagspec)) = result
            at hsome ⊢
          obtain ⟨s', r⟩ := result
          replace hsome : r = some tag' := hsome
          subst hsome
          exact ⟨⟨tag, ⟨hold, hnew⟩, hno⟩, tag', s', rfl⟩
      · rw [Bool.not_eq_false] at hknown
        rw [hknown, if_pos rfl]
        refine Or.inl ⟨rfl, ?_⟩
        rintro node' tagspec' ⟨⟩ hall
        rw [(h.known_iff _).mpr hall] at hknown
        cases hknown

/-- **STEP**: who was told, and stored, is in step. -/
theorem synced_told (h : Inv providers s) {s' : State N} {node : N} {newTags : List Tag}
    (hnew : newTags.Nodup)
    (htold : s'.told = s.told ++ (changes (getTags s.rows node) newTags).map (fun c => (node, c)))
    {tag : Tag} (htag : (providers.find tag).isSome) (n : N) :
    follow false (tellings tag n s'.told)
      = some (decide ((n, tag) ∈ (setTags s.rows node newTags).rows)) := by
  have hold : (getTags s.rows node).Nodup := nodup_toSet _
  have hchanges := tellings_changes hold hnew node n tag
  rw [htold, tellings_append, hchanges, follow_append, h.synced tag htag n]
  simp only [Option.bind_some, mem_setTags]
  by_cases hn : n = node
  · subst hn
    have hmem : decide ((n, tag) ∈ s.rows.rows) = decide (tag ∈ getTags s.rows n) :=
      decide_eq_decide.mpr mem_getTags.symm
    rw [if_pos rfl, hmem, follow_change]
    simp
  · simp [hn, follow]

/-- With nothing to change, nobody is told. -/
theorem changes_eq_nil {node : N} {newTags : List Tag}
    (h : ∀ tag, (node, tag) ∈ s.rows.rows ↔ tag ∈ newTags) :
    changes (getTags s.rows node) newTags = [] := by
  rw [List.eq_nil_iff_forall_not_mem]
  rintro ⟨tag, flag⟩ hc
  rcases mem_changes.mp hc with ⟨⟨hold, hnew⟩, -⟩ | ⟨⟨hnew, hold⟩, -⟩
  · exact hnew ((h tag).mp (mem_getTags.mp hold))
  · exact hold (mem_getTags.mpr ((h tag).mpr hnew))

/-- **SPEC**: what the command is to do it does exactly if the way is clear. -/
theorem ok_iff_clear (h : Inv providers s) (c : Command N) :
    Ok providers s c ↔ Clear providers s c := by
  rcases unmanage_cases h c with ⟨hrefused, hunknown⟩ | ⟨node, tagspec, hparams, hknown, hcase⟩
  · unfold Ok Clear
    rw [hrefused]
    refine iff_of_true ⟨fun _ => ⟨rfl, rfl⟩, by simp, by simp⟩ ?_
    exact fun node tagspec hparams hall => absurd hall (hunknown node tagspec hparams)
  rcases hcase with ⟨⟨tag, ⟨hold, hnew⟩, hno⟩, tag', s', hempty⟩ | ⟨hremoved, s', hkept, hrows,
    hinforms, htold, hdone⟩
  · refine iff_of_false (fun hok => ?_) (fun hclear => ?_)
    · exact hok.2.2 tag' (by rw [hempty]; exact List.mem_cons_self)
    · exact hno ((hclear node tagspec hparams hknown).1 tag hold hnew)
  have hsync := fun {tag : Tag} (htag : (providers.find tag).isSome) (n : N) =>
    synced_told h (nodup_toSet _) htold htag n
  unfold Ok Clear
  rw [hdone]
  cases hwritten : c.written with
  | true =>
      rw [if_pos rfl, hrows]
      refine iff_of_true ⟨by simp, fun _ tag htag n => hsync htag n, by simp⟩ ?_
      intro node' tagspec' hparams' _
      rw [hparams] at hparams'
      cases hparams'
      exact ⟨hremoved, nofun⟩
  | false =>
      rw [if_neg Bool.false_ne_true]
      constructor
      · rintro ⟨hfail, -, -⟩ node' tagspec' hparams' _
        rw [hparams] at hparams'
        cases hparams'
        refine ⟨hremoved, fun _ tag => ?_⟩
        obtain ⟨-, hsame⟩ := hfail (List.mem_singleton_self _)
        by_cases htag : (providers.find tag).isSome
        · -- the set of the provider says what is stored, and it was told what is given
          have htoldNow := follow_eq_getLastD (hsync htag node)
          rw [← h.mem_unmanaged htag node, ← hsame, hkept tag node, ← htoldNow]
          simp [mem_setTags, splitTags]
        · exact iff_of_false (fun hold => htag (hremoved tag hold
            (fun hnew => htag (hknown tag hnew)))) (fun hnew => htag (hknown tag hnew))
      · intro hclear
        obtain ⟨-, hsame⟩ := hclear node tagspec hparams hknown
        rw [changes_eq_nil (hsame rfl), List.map_nil, List.append_nil] at htold
        refine ⟨fun _ => ⟨hrows, ?_⟩, by simp, by simp⟩
        funext tag
        ext n
        rw [hkept tag n, h.kept tag n, htold]

/-- **STEP**. -/
theorem inv_unmanage (h : Inv providers s) {c : Command N} (hclear : Clear providers s c) :
    Inv providers (s.unmanage c).1 := by
  rcases unmanage_cases h c with ⟨hrefused, -⟩ | ⟨node, tagspec, hparams, hknown, hcase⟩
  · rw [hrefused]
    exact h
  rcases hcase with ⟨⟨tag, ⟨hold, hnew⟩, hno⟩, -⟩ | ⟨-, s', hkept, hrows, hinforms, htold, hdone⟩
  · exact absurd ((hclear node tagspec hparams hknown).1 tag hold hnew) hno
  have hfunctions : ∀ tag, s'.informs.find tag = (providers.find tag).map (fun _ => true) :=
    fun tag => hinforms ▸ h.informs tag
  rw [hdone]
  cases hwritten : c.written with
  | true =>
      rw [if_pos rfl, hrows]
      exact ⟨hfunctions, hkept, fun tag htag n => synced_told h (nodup_toSet _) htold htag n⟩
  | false =>
      rw [if_neg Bool.false_ne_true]
      obtain ⟨-, hsame⟩ := hclear node tagspec hparams hknown
      rw [changes_eq_nil (hsame hwritten), List.map_nil, List.append_nil] at htold
      refine ⟨hfunctions, hkept, fun tag htag n => ?_⟩
      rw [htold, hrows]
      exact h.synced tag htag n

/-! ## Runs -/

theorem tellings_initial (rows : Rows N) (tag t : Tag) (node : N) :
    tellings t node (initialTold rows tag)
      = if t = tag ∧ (node, t) ∈ rows.rows then [true] else [] := by
  have hnodup : rows.rows.Nodup := by
    have := rows.nodup
    rwa [List.map_id] at this
  have hpick : ∀ r : N × Tag,
      (if r.1 = node ∧ r.2 = t then some true else none)
        = if r = (node, t) then some true else none :=
    fun r => if_congr ⟨fun h => Prod.ext h.1 h.2, fun h => Prod.ext_iff.mp h⟩ rfl rfl
  unfold tellings initialTold
  rw [List.filterMap_map]
  show (rows.rows.filter (fun r => r.2 = tag)).filterMap
    (fun r => if r.1 = node ∧ r.2 = t then some true else none) = _
  simp only [hpick]
  rw [filterMap_pick (hnodup.filter _)]
  refine if_congr ?_ rfl rfl
  rw [List.mem_filter, decide_eq_true_eq, and_comm]

theorem tellings_start (rows : Rows N) (tag : Tag) (node : N) :
    ∀ {l : List (Tag × Unit)}, (l.map Prod.fst).Nodup →
      tellings tag node (l.flatMap (fun p => initialTold rows p.1))
        = if tag ∈ l.map Prod.fst ∧ (node, tag) ∈ rows.rows then [true] else [] := by
  intro l
  induction l with
  | nil => exact fun _ => by simp [tellings]
  | cons p l ih =>
      intro hnodup
      obtain ⟨hp, hl⟩ := List.nodup_cons.mp hnodup
      rw [List.flatMap_cons, tellings_append, tellings_initial, ih hl, List.map_cons]
      by_cases hmem : (node, tag) ∈ rows.rows
      · by_cases htag : tag = p.1
        · subst htag
          simp [hmem, hp]
        · rw [if_neg (fun h => htag h.1), List.nil_append]
          refine if_congr (and_congr_left' ?_) rfl rfl
          rw [List.mem_cons, or_iff_right htag]
      · simp [hmem]

theorem inv_start (rows : Rows N) (providers : OrderedMap Tag Unit) :
    Inv providers (start rows providers) := by
  have htold : ∀ tag node, tellings tag node (start rows providers).told
      = if (providers.find tag).isSome ∧ (node, tag) ∈ rows.rows then [true] else [] := by
    intro tag node
    refine (tellings_start rows tag node providers.nodup_keys).trans (if_congr ?_ rfl rfl)
    rw [providers.isSome_find_iff]
  refine ⟨fun tag => providers.find_mapValues _ tag, fun tag node => ?_, fun tag htag node => ?_⟩
  · rw [htold]
    show node ∈ (if (providers.find tag).isSome
      then ((initialTold rows tag).map Prod.fst).toFinset else ∅) ↔ _
    by_cases htag : (providers.find tag).isSome
    · by_cases hrow : (node, tag) ∈ rows.rows <;> simp [htag, hrow, initialTold]
    · simp [htag]
  · rw [htold]
    show _ = some (decide ((node, tag) ∈ rows.rows))
    by_cases hrow : (node, tag) ∈ rows.rows <;> simp [htag, hrow, follow]

/-- **HEADLINE**: every command of a run does what it is to do exactly if the way is clear
    for every one. -/
theorem ok_iff_clear_run (rows : Rows N) (providers : OrderedMap Tag Unit)
    (cs : List (Command N)) :
    Along step (Ok providers) (start rows providers) cs
      ↔ Along step (Clear providers) (start rows providers) cs := by
  refine along_iff (P := Ok providers) (Q := Clear providers) (I := Inv providers)
    (fun _ c h => ok_iff_clear h c) (fun s c s' out h hclear hs => ?_)
    (inv_start rows providers) cs
  obtain ⟨rfl, -⟩ := Prod.ext_iff.mp (Option.some.inj hs)
  exact inv_unmanage h hclear

/-- What an earlier version left: node 1 has the tag of a provider, and one that nobody
    provides any more. -/
def oldRows : Rows ℕ := ⟨[(1, ['f']), (1, ['z'])], by decide⟩

def oneProvider : OrderedMap Tag Unit := OrderedMap.empty.assign ['f'] ()

/-- **COUNTEREXAMPLE**: managing node 1 again fails, for the empty function of `z`, after the
    provider of `f` was told; the database keeps both tags. -/
theorem oldTag_not_ok :
    let s := start oldRows oneProvider
    let c : Command ℕ := ⟨some (1, []), true⟩
    (s.unmanage c).2 = [.emptyCalled ['z'], .fail]
      ∧ (s.unmanage c).1.rows.rows = oldRows.rows
      ∧ 1 ∈ s.unmanaged ['f'] ∧ 1 ∉ (s.unmanage c).1.unmanaged ['f']
      ∧ ¬ Along step (Ok oneProvider) s [c] := by
  have hcalled : ((start oldRows oneProvider).unmanage ⟨some (1, []), true⟩).2
      = [.emptyCalled ['z'], .fail] := by decide
  refine ⟨hcalled, by decide, by decide, by decide, fun h => ?_⟩
  exact h.1.2.2 ['z'] (by rw [hcalled]; exact List.mem_cons_self)

end UnmanagedManager
