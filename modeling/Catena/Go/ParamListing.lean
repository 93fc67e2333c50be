import Catena.Framework.Throws
import Catena.Go.ParamInfo

/-!
# Listing and finding params

The full listing is taken apart by the paths of its entries: below each key of a map, in order,
stands the block of the param with that key. A path selects the block of its first part, and in
it what the rest of the path selects below. That is the walk of `findParamDescriptor`.
-/

namespace Catena.Go

open Catena.Framework

/-! ## Paths -/

/-- The params of a tree in the order of the listing, with their paths. -/
def paramPaths (params : AnyMap) : List (List Text × AnyMap) :=
  (sortedKeys params).flatMap fun key =>
    match _h : params.lookup key with
    | some (.map paramInfo) =>
        ([key], paramInfo) ::
          match _h' : childParamMap paramInfo with
          | some children => (paramPaths children).map fun e => (key :: e.1, e.2)
          | none => []
    | _ => []
termination_by sizeOf params
decreasing_by exact sizeOf_childParamMap _h _h'

def pathsBelow (paramInfo : AnyMap) : List (List Text × AnyMap) :=
  match childParamMap paramInfo with
  | some children => paramPaths children
  | none => []

def blockOf (params : AnyMap) (key : Text) : List (List Text × AnyMap) :=
  match params.lookup key with
  | some (.map paramInfo) =>
      ([key], paramInfo) :: (pathsBelow paramInfo).map fun e => (key :: e.1, e.2)
  | _ => []

/-- The oid of a param with this path below `base`. -/
def joinOid (base : Text) (path : List Text) : Text :=
  path.foldl (fun oid key => if oid ≠ [] then oid ++ '/' :: key else key) base

theorem paramPaths_eq (params : AnyMap) :
    paramPaths params = (sortedKeys params).flatMap (blockOf params) := by
  rw [paramPaths]
  congr 1
  funext key
  rw [blockOf]
  split
  · rename_i paramInfo hlookup
    simp only [hlookup]
    congr 1
    rw [pathsBelow]
    split
    · rename_i children hchildren
      simp only [hchildren]
    · rename_i hnone
      simp only [hnone, List.map_nil]
  · rename_i hother
    split
    · rename_i paramInfo hlookup
      exact absurd hlookup (hother paramInfo)
    · rfl

theorem params_induction {P : AnyMap → Prop}
    (step : ∀ params, (∀ key paramInfo children, params.lookup key = some (.map paramInfo) →
      childParamMap paramInfo = some children → P children) → P params) (params : AnyMap) :
    P params :=
  step params fun _ _ children h h' =>
    have := sizeOf_childParamMap h h'
    params_induction step children
termination_by sizeOf params

/-- The listing made from the paths. -/
theorem flattenParamInfos_true (params : AnyMap) (base : Text) :
    flattenParamInfos params base true =
      (paramPaths params).map fun e => newParamInfoFromDescriptor (joinOid base e.1) e.2 := by
  induction params using params_induction generalizing base with
  | step params ih =>
    rw [flattenParamInfos, paramPaths_eq, List.map_flatMap]
    congr 1
    funext key
    rw [blockOf]
    split
    · rename_i paramInfo hlookup
      simp only [hlookup, if_true, List.map_cons, List.map_map]
      congr 1
      rw [pathsBelow]
      split
      · rename_i children hchildren
        simp only [hchildren]
        rw [ih key paramInfo children hlookup hchildren]
        rfl
      · rename_i hnone
        simp only [hnone, List.map_nil]
    · rename_i hother
      split
      · rename_i paramInfo hlookup
        exact absurd hlookup (hother paramInfo)
      · rfl

theorem mem_blockOf {params : AnyMap} {key : Text} {e : List Text × AnyMap}
    (h : e ∈ blockOf params key) : ∃ rest, e.1 = key :: rest := by
  rw [blockOf] at h
  split at h
  · rcases List.mem_cons.mp h with rfl | hbelow
    · exact ⟨[], rfl⟩
    · obtain ⟨e', -, rfl⟩ := List.mem_map.mp hbelow
      exact ⟨e'.1, rfl⟩
  · cases h

theorem ne_nil_of_mem_paramPaths {params : AnyMap} {e : List Text × AnyMap}
    (h : e ∈ paramPaths params) : e.1 ≠ [] := by
  rw [paramPaths_eq] at h
  obtain ⟨key, -, hblock⟩ := List.mem_flatMap.mp h
  obtain ⟨rest, hrest⟩ := mem_blockOf hblock
  rw [hrest]
  exact List.cons_ne_nil key rest

theorem paramPaths_nil : paramPaths [] = [] := by
  rw [paramPaths_eq]
  rfl

theorem pathsBelow_eq (paramInfo : AnyMap) :
    pathsBelow paramInfo = paramPaths ((childParamMap paramInfo).getD []) := by
  rw [pathsBelow]
  split
  · rename_i children hchildren
    rw [hchildren, Option.getD_some]
  · rename_i hnone
    rw [hnone, Option.getD_none, paramPaths_nil]

/-- Only the first level. -/
theorem flattenParamInfos_false (params : AnyMap) :
    flattenParamInfos params [] false =
      ((paramPaths params).filter fun e => e.1.length = 1).map fun e =>
        newParamInfoFromDescriptor (joinOid [] e.1) e.2 := by
  rw [flattenParamInfos, paramPaths_eq, List.filter_flatMap, List.map_flatMap]
  congr 1
  funext key
  rw [blockOf]
  split
  · rename_i paramInfo hlookup
    have hnone : ((pathsBelow paramInfo).map fun e => (key :: e.1, e.2)).filter
        (fun e => e.1.length = 1) = [] := by
      rw [List.filter_eq_nil_iff]
      intro e he
      obtain ⟨e', hmem, rfl⟩ := List.mem_map.mp he
      rw [pathsBelow_eq] at hmem
      have hpos := List.length_pos_iff.mpr (ne_nil_of_mem_paramPaths hmem)
      rw [decide_eq_true_eq, List.length_cons]
      omega
    simp only [hlookup, List.filter_cons, hnone]
    rfl
  · rename_i hother
    split
    · rename_i paramInfo hlookup
      exact absurd hlookup (hother paramInfo)
    · rfl

/-! ## What a path selects -/

/-- The maps of params have distinct keys, which are not empty and have no slash. -/
inductive WellKeyed : AnyMap → Prop where
  | intro (params : AnyMap) (nodup : (params.map Prod.fst).Nodup)
      (keys : ∀ key ∈ params.map Prod.fst, key ≠ [] ∧ '/' ∉ key)
      (children : ∀ key paramInfo children, params.lookup key = some (.map paramInfo) →
        childParamMap paramInfo = some children → WellKeyed children) : WellKeyed params

theorem WellKeyed.nodup {params : AnyMap} (h : WellKeyed params) :
    (sortedKeys params).Nodup := by
  cases h with
  | intro _ hnodup => exact (List.perm_insertionSort _ _).nodup_iff.mpr hnodup

theorem wellKeyed_nil : WellKeyed [] :=
  ⟨[], List.nodup_nil, nofun, nofun⟩

theorem WellKeyed.getD_children {params paramInfo : AnyMap} {key : Text} (h : WellKeyed params)
    (hlookup : params.lookup key = some (.map paramInfo)) :
    WellKeyed ((childParamMap paramInfo).getD []) := by
  cases h with
  | intro _ _ _ hchildren =>
    cases hmap : childParamMap paramInfo with
    | none => exact wellKeyed_nil
    | some children => exact hchildren key paramInfo children hlookup hmap

theorem mem_sortedKeys {params : AnyMap} {key : Text} :
    key ∈ sortedKeys params ↔ key ∈ params.map Prod.fst :=
  List.mem_insertionSort _

theorem mem_sortedKeys_of_lookup {params : AnyMap} {key : Text} {a : Any}
    (h : params.lookup key = some a) : key ∈ sortedKeys params := by
  rw [mem_sortedKeys]
  exact List.mem_map_of_mem (mem_of_lookup h)

theorem blockOf_nil_of_not_mem {params : AnyMap} {key : Text} (h : key ∉ sortedKeys params) :
    blockOf params key = [] := by
  rw [blockOf]
  split
  · rename_i paramInfo hlookup
    exact absurd (mem_sortedKeys_of_lookup hlookup) h
  · rfl

theorem blockOf_map {params paramInfo : AnyMap} {key : Text}
    (h : params.lookup key = some (.map paramInfo)) :
    blockOf params key =
      ([key], paramInfo) :: (pathsBelow paramInfo).map fun e => (key :: e.1, e.2) := by
  simp only [blockOf, h]

theorem blockOf_other {params : AnyMap} {key : Text}
    (h : ∀ paramInfo, params.lookup key ≠ some (.map paramInfo)) : blockOf params key = [] := by
  rw [blockOf]
  split
  · rename_i paramInfo hlookup
    exact absurd hlookup (h paramInfo)
  · rfl

theorem findFrom_map {params paramInfo : AnyMap} {key : Text}
    (h : params.lookup key = some (.map paramInfo)) (path : List Text) (current : AnyMap) :
    findFrom (key :: path) current params =
      findFrom path paramInfo ((childParamMap paramInfo).getD []) := by
  simp only [findFrom, h]

theorem findFrom_other {params : AnyMap} {key : Text}
    (h : ∀ paramInfo, params.lookup key ≠ some (.map paramInfo)) (path : List Text)
    (current : AnyMap) : findFrom (key :: path) current params = none := by
  rw [findFrom]
  split
  · rename_i paramInfo hlookup
    exact absurd hlookup (h paramInfo)
  · rfl

/-- A path selects what it selects from the block of its first part. -/
theorem filter_paramPaths_cons {params : AnyMap} (hkeys : WellKeyed params) (part : Text)
    (parts : List Text) :
    (paramPaths params).filter (fun e => part :: parts <+: e.1) =
        (blockOf params part).filter (fun e => part :: parts <+: e.1) ∧
      blockOf params part <:+: paramPaths params := by
  have hother : ∀ key ≠ part,
      (blockOf params key).filter (fun e => part :: parts <+: e.1) = [] := by
    intro key hne
    rw [List.filter_eq_nil_iff]
    intro e he hstart
    obtain ⟨rest, hrest⟩ := mem_blockOf he
    rw [decide_eq_true_eq, hrest, List.cons_prefix_cons] at hstart
    exact hne hstart.1.symm
  rw [paramPaths_eq, List.filter_flatMap]
  by_cases hmem : part ∈ sortedKeys params
  · obtain ⟨before, after, hsplit⟩ := List.append_of_mem hmem
    have hnodup := hkeys.nodup
    rw [hsplit, List.nodup_append] at hnodup
    obtain ⟨-, hafter, hdisjoint⟩ := hnodup
    have hbefore : before.flatMap
        (fun key => (blockOf params key).filter (fun e => part :: parts <+: e.1)) = [] := by
      rw [List.flatMap_eq_nil_iff]
      intro key hkey
      exact hother key (hdisjoint key hkey part List.mem_cons_self)
    have hrest : after.flatMap
        (fun key => (blockOf params key).filter (fun e => part :: parts <+: e.1)) = [] := by
      rw [List.flatMap_eq_nil_iff]
      intro key hkey
      exact hother key fun heq => (List.nodup_cons.mp hafter).1 (heq ▸ hkey)
    rw [hsplit, List.flatMap_append, List.flatMap_cons, List.flatMap_append, List.flatMap_cons,
      hbefore, hrest, List.nil_append, List.append_nil]
    exact ⟨rfl, _, _, List.append_assoc _ _ _⟩
  · rw [blockOf_nil_of_not_mem hmem]
    refine ⟨?_, List.nil_infix⟩
    rw [List.filter_nil, List.flatMap_eq_nil_iff]
    intro key hkey
    exact hother key fun heq => hmem (heq ▸ hkey)

/-- The block of the param that a path leads to, if it leads to one. -/
def selected (path : List Text) : Option AnyMap → List (List Text × AnyMap)
  | some paramInfo => (path, paramInfo) :: (pathsBelow paramInfo).map fun e => (path ++ e.1, e.2)
  | none => []

theorem selected_cons (part : Text) (path : List Text) (found : Option AnyMap) :
    (selected path found).map (fun e => (part :: e.1, e.2)) = selected (part :: path) found := by
  cases found with
  | none => rfl
  | some paramInfo =>
    rw [selected, selected, List.map_cons, List.map_map]
    rfl

/-- The walk finds what the path selects, and that is one piece of the listing. -/
theorem filter_paramPaths {params : AnyMap} (hkeys : WellKeyed params) {path : List Text}
    (hpath : path ≠ []) (current : AnyMap) :
    (paramPaths params).filter (fun e => path <+: e.1) =
        selected path (findFrom path current params) ∧
      selected path (findFrom path current params) <:+: paramPaths params := by
  induction path generalizing params current with
  | nil => exact absurd rfl hpath
  | cons part path ih =>
    obtain ⟨hfilter, hinfix⟩ := filter_paramPaths_cons hkeys part path
    rw [hfilter]
    by_cases hlookup : ∃ paramInfo, params.lookup part = some (.map paramInfo)
    · obtain ⟨paramInfo, hlookup⟩ := hlookup
      rw [blockOf_map hlookup] at hinfix ⊢
      rw [findFrom_map hlookup]
      by_cases hlast : path = []
      · subst hlast
        have hall : ∀ e ∈ ([part], paramInfo) ::
            (pathsBelow paramInfo).map (fun e => (part :: e.1, e.2)), [part] <+: e.1 := by
          intro e he
          rcases List.mem_cons.mp he with rfl | hbelow
          · exact List.prefix_rfl
          · obtain ⟨e', -, rfl⟩ := List.mem_map.mp hbelow
            exact ⟨e'.1, rfl⟩
        rw [List.filter_eq_self.mpr fun e he => decide_eq_true (hall e he)]
        exact ⟨rfl, hinfix⟩
      · obtain ⟨hbelow, hpiece⟩ := ih (hkeys.getD_children hlookup) hlast paramInfo
        have hhead : ¬part :: path <+: [part] := by
          rw [List.cons_prefix_cons, List.prefix_nil]
          exact fun h => hlast h.2
        have hcons : ((fun e : List Text × AnyMap => decide (part :: path <+: e.1)) ∘
            fun e : List Text × AnyMap => (part :: e.1, e.2)) = fun e => decide (path <+: e.1) := by
          funext e
          simp only [Function.comp_apply, List.cons_prefix_cons, true_and]
        rw [List.filter_cons, if_neg (by rwa [decide_eq_true_eq]), List.filter_map, hcons,
          pathsBelow_eq, hbelow, selected_cons]
        refine ⟨rfl, ?_⟩
        rw [pathsBelow_eq] at hinfix
        have hmapped := hpiece.map fun e => (part :: e.1, e.2)
        rw [selected_cons] at hmapped
        exact (hmapped.trans (List.suffix_cons _ _).isInfix).trans hinfix
    · rw [not_exists] at hlookup
      rw [blockOf_other hlookup, findFrom_other hlookup]
      exact ⟨rfl, List.nil_infix⟩

/-! ## Oids -/

theorem joinOid_eq {base : Text} (h : base ≠ []) (path : List Text) :
    joinOid base path = base ++ path.flatMap ('/' :: ·) := by
  induction path generalizing base with
  | nil => exact (List.append_nil base).symm
  | cons key path ih =>
    have hstep : joinOid base (key :: path) = joinOid (base ++ '/' :: key) path := by
      rw [joinOid, List.foldl_cons, if_pos h]
      rfl
    rw [hstep, ih (List.append_ne_nil_of_left_ne_nil h _), List.flatMap_cons, List.append_assoc]

/-- Every part of a path that is listed is a key. -/
theorem paramPaths_keys {params : AnyMap} (hkeys : WellKeyed params) {e : List Text × AnyMap}
    (he : e ∈ paramPaths params) : ∀ key ∈ e.1, key ≠ [] ∧ '/' ∉ key := by
  induction params using params_induction generalizing e with
  | step params ih =>
    rw [paramPaths_eq] at he
    obtain ⟨key, hkey, hblock⟩ := List.mem_flatMap.mp he
    have hthis : key ≠ [] ∧ '/' ∉ key := by
      cases hkeys with
      | intro _ _ hall => exact hall key (mem_sortedKeys.mp hkey)
    by_cases hlookup : ∃ paramInfo, params.lookup key = some (.map paramInfo)
    · obtain ⟨paramInfo, hlookup⟩ := hlookup
      rw [blockOf_map hlookup] at hblock
      rcases List.mem_cons.mp hblock with rfl | hbelow
      · intro k hk
        rw [List.mem_singleton.mp hk]
        exact hthis
      · obtain ⟨e', hmem, rfl⟩ := List.mem_map.mp hbelow
        intro k hk
        rcases List.mem_cons.mp hk with rfl | hrest
        · exact hthis
        · cases hmap : childParamMap paramInfo with
          | none =>
            rw [pathsBelow, hmap] at hmem
            cases hmem
          | some children =>
            rw [pathsBelow, hmap] at hmem
            have hbelow := hkeys.getD_children hlookup
            rw [hmap] at hbelow
            exact ih key paramInfo children hlookup hmap hbelow hmem k hrest
    · rw [not_exists] at hlookup
      rw [blockOf_other hlookup] at hblock
      cases hblock

theorem components_joinOid {path : List Text} (hpath : path ≠ [])
    (hkeys : ∀ key ∈ path, key ≠ [] ∧ '/' ∉ key) :
    FilePath.components (joinOid [] path) = path := by
  cases path with
  | nil => exact absurd rfl hpath
  | cons key path =>
    obtain ⟨⟨hne, hkey⟩, hrest⟩ := List.forall_mem_cons.mp hkeys
    have hstep : joinOid [] (key :: path) = joinOid key path := rfl
    rw [hstep, joinOid_eq hne]
    clear hstep hkeys hpath
    induction path generalizing key with
    | nil => rw [List.flatMap_nil, List.append_nil, FilePath.components_of_not_mem hkey]
    | cons part path ih =>
      obtain ⟨⟨hne', hpart⟩, hrest'⟩ := List.forall_mem_cons.mp hrest
      rw [List.flatMap_cons, List.cons_append, FilePath.components_append_solidus,
        FilePath.components_of_not_mem hkey, ih part hrest' hne' hpart]
      rfl

/-- The oid is the one requested, or lies below it. -/
def Covers (oid oid' : Text) : Prop := oid' = oid ∨ ∃ rest, oid' = oid ++ '/' :: rest

theorem covers_iff {oid oid' : Text} :
    Covers oid oid' ↔ FilePath.components oid <+: FilePath.components oid' :=
  FilePath.components_prefix_iff.symm

instance (oid oid' : Text) : Decidable (Covers oid oid') := decidable_of_iff _ covers_iff.symm

/-- No path is listed twice. -/
theorem paramPaths_nodup {params : AnyMap} (hkeys : WellKeyed params) :
    ((paramPaths params).map Prod.fst).Nodup := by
  induction params using params_induction with
  | step params ih =>
    rw [paramPaths_eq, List.map_flatMap, List.nodup_flatMap]
    constructor
    · intro key _
      by_cases hlookup : ∃ paramInfo, params.lookup key = some (.map paramInfo)
      · obtain ⟨paramInfo, hlookup⟩ := hlookup
        have hbelow : ((pathsBelow paramInfo).map Prod.fst).Nodup := by
          have hchildren := hkeys.getD_children hlookup
          rw [pathsBelow]
          cases hmap : childParamMap paramInfo with
          | none => exact List.nodup_nil
          | some children =>
            rw [hmap] at hchildren
            exact ih key paramInfo children hlookup hmap hchildren
        rw [blockOf_map hlookup, List.map_cons, List.map_map, List.nodup_cons]
        constructor
        · intro hmem
          obtain ⟨e, he, heq⟩ := List.mem_map.mp hmem
          rw [pathsBelow_eq] at he
          exact ne_nil_of_mem_paramPaths he (List.cons.inj heq).2
        · have hcons := hbelow.map (List.cons_injective (a := key))
          rwa [List.map_map] at hcons
      · rw [not_exists] at hlookup
        rw [blockOf_other hlookup]
        exact List.nodup_nil
    · refine hkeys.nodup.imp ?_
      intro key key' hne path hpath hpath'
      obtain ⟨e, he, rfl⟩ := List.mem_map.mp hpath
      obtain ⟨e', he', heq⟩ := List.mem_map.mp hpath'
      obtain ⟨rest, hrest⟩ := mem_blockOf he
      obtain ⟨rest', hrest'⟩ := mem_blockOf he'
      rw [hrest, hrest'] at heq
      exact hne (List.cons.inj heq).1.symm

theorem components_listed {params : AnyMap} (hkeys : WellKeyed params)
    {e : List Text × AnyMap} (he : e ∈ paramPaths params) :
    FilePath.components (joinOid [] e.1) = e.1 :=
  components_joinOid (ne_nil_of_mem_paramPaths he) (paramPaths_keys hkeys he)

theorem oids_nodup {params : AnyMap} (hkeys : WellKeyed params) :
    ((flattenParamInfos params [] true).map ParamInfo.oid).Nodup := by
  have hoids : (flattenParamInfos params [] true).map ParamInfo.oid =
      ((paramPaths params).map Prod.fst).map (joinOid []) := by
    rw [flattenParamInfos_true, List.map_map, List.map_map]
    rfl
  rw [hoids]
  refine List.Nodup.map_on ?_ (paramPaths_nodup hkeys)
  intro path hpath path' hpath' heq
  obtain ⟨e, he, rfl⟩ := List.mem_map.mp hpath
  obtain ⟨e', he', rfl⟩ := List.mem_map.mp hpath'
  rw [← components_listed hkeys he, ← components_listed hkeys he', heq]

/-! ## Requests -/

/-- A request for an oid selects what the oid covers. -/
theorem filter_covers {params : AnyMap} (hkeys : WellKeyed params) (oid : Text) (current : AnyMap) :
    (flattenParamInfos params [] true).filter (fun info => Covers oid info.oid) =
        (selected (FilePath.components oid)
          (findFrom (FilePath.components oid) current params)).map
            (fun e => newParamInfoFromDescriptor (joinOid [] e.1) e.2) ∧
      (flattenParamInfos params [] true).filter (fun info => Covers oid info.oid) <:+:
        flattenParamInfos params [] true := by
  obtain ⟨hfilter, hpiece⟩ :=
    filter_paramPaths hkeys (FilePath.components_ne_nil oid) current
  have hpaths : (flattenParamInfos params [] true).filter (fun info => Covers oid info.oid) =
      ((paramPaths params).filter fun e => FilePath.components oid <+: e.1).map
        fun e => newParamInfoFromDescriptor (joinOid [] e.1) e.2 := by
    rw [flattenParamInfos_true, List.filter_map]
    congr 1
    apply List.filter_congr
    intro e he
    have hcovers : Covers oid (joinOid [] e.1) ↔ FilePath.components oid <+: e.1 := by
      rw [covers_iff, components_listed hkeys he]
    simp only [Function.comp_apply, newParamInfoFromDescriptor, hcovers]
  rw [hpaths, hfilter]
  refine ⟨rfl, ?_⟩
  rw [flattenParamInfos_true]
  exact hpiece.map _

/-- An oid is joined from its components, unless it begins with a slash. -/
theorem joinOid_components {oid key : Text} {path : List Text}
    (hoid : FilePath.components oid = key :: path) (hkey : key ≠ []) :
    joinOid [] (FilePath.components oid) = oid := by
  have hjoin : joinOid [] (key :: path) = joinOid key path := rfl
  have hwhole := FilePath.flatMap_components oid
  rw [hoid, List.flatMap_cons, List.cons_append, List.cons.injEq] at hwhole
  rw [hoid, hjoin, joinOid_eq hkey]
  exact hwhole.2

theorem WellKeyed.first_of_found {params current paramInfo : AnyMap} {path : List Text}
    (hkeys : WellKeyed params) (hpath : path ≠ [])
    (hfound : findFrom path current params = some paramInfo) :
    ∃ key rest, path = key :: rest ∧ key ≠ [] := by
  cases path with
  | nil => exact absurd rfl hpath
  | cons key rest =>
    refine ⟨key, rest, rfl, ?_⟩
    have hlookup : ∃ paramInfo, params.lookup key = some (.map paramInfo) := by
      by_contra hnone
      rw [not_exists] at hnone
      rw [findFrom_other hnone] at hfound
      cases hfound
    obtain ⟨paramInfo, hlookup⟩ := hlookup
    have hmem := mem_sortedKeys.mp (mem_sortedKeys_of_lookup hlookup)
    cases hkeys with
    | intro _ _ hall => exact (hall key hmem).1

/-- What a request lists when the param is found. -/
theorem filter_covers_found {params paramInfo : AnyMap} (hkeys : WellKeyed params) {oid : Text}
    (hfound : findFrom (FilePath.components oid) [] params = some paramInfo) :
    (flattenParamInfos params [] true).filter (fun info => Covers oid info.oid) =
      newParamInfoFromDescriptor oid paramInfo ::
        match childParamMap paramInfo with
        | some children => flattenParamInfos children oid true
        | none => [] := by
  obtain ⟨key, rest, hpath, hkey⟩ :=
    hkeys.first_of_found (FilePath.components_ne_nil oid) hfound
  have hjoin := joinOid_components hpath hkey
  have hbelow : ∀ path, joinOid [] (FilePath.components oid ++ path) = joinOid oid path := by
    intro path
    rw [joinOid, List.foldl_append]
    exact congrArg (fun base => joinOid base path) hjoin
  rw [(filter_covers hkeys oid []).1, hfound, selected, List.map_cons, List.map_map, hjoin]
  congr 1
  rw [pathsBelow]
  cases childParamMap paramInfo with
  | none => rfl
  | some children =>
    simp only [flattenParamInfos_true]
    congr 1
    funext e
    rw [Function.comp_apply, hbelow]

/-- The statement about one oid other than that of the root. -/
theorem paramInfosOf_consistent {params : AnyMap} (hkeys : WellKeyed params) {oid : Text}
    (hoid : oid ≠ []) :
    let listing := flattenParamInfos params [] true
    ((∃ info ∈ listing, info.oid = oid) →
      paramInfosOf params oid true = .ok (listing.filter fun info => Covers oid info.oid) ∧
      paramInfosOf params oid false =
        .ok ((listing.filter fun info => Covers oid info.oid).take 1)) ∧
    ((¬∃ info ∈ listing, info.oid = oid) → ∀ recursive, paramInfosOf params oid recursive =
      .error ⟨.notFound, "param not found: " ++ String.ofList oid⟩) := by
  intro listing
  have hfind : findParamDescriptor params oid = findFrom (FilePath.components oid) [] params :=
    if_neg hoid
  cases hfound : findFrom (FilePath.components oid) [] params with
  | none =>
    have hnone : ¬∃ info ∈ listing, info.oid = oid := by
      rintro ⟨info, hinfo, heq⟩
      have hmem : info ∈ listing.filter fun info => Covers oid info.oid :=
        List.mem_filter.mpr ⟨hinfo, decide_eq_true (.inl heq)⟩
      rw [(filter_covers hkeys oid []).1, hfound] at hmem
      cases hmem
    refine ⟨fun hsome => absurd hsome hnone, fun _ recursive => ?_⟩
    simp only [paramInfosOf, if_neg hoid, hfind, hfound]
  | some paramInfo =>
    have hfilter := filter_covers_found hkeys hfound
    have hsome : ∃ info ∈ listing, info.oid = oid := by
      refine ⟨newParamInfoFromDescriptor oid paramInfo, ?_, rfl⟩
      have hmem : newParamInfoFromDescriptor oid paramInfo ∈
          listing.filter fun info => Covers oid info.oid := by
        rw [hfilter]
        exact List.mem_cons_self
      exact (List.mem_filter.mp hmem).1
    refine ⟨fun _ => ⟨?_, ?_⟩, fun hnone => absurd hsome hnone⟩
    · rw [hfilter, paramInfosOf, if_neg hoid, hfind, hfound]
      rfl
    · rw [hfilter, paramInfosOf, if_neg hoid, hfind, hfound]
      rfl

theorem flattenParamInfos_top {params : AnyMap} (hkeys : WellKeyed params) :
    flattenParamInfos params [] false =
      (flattenParamInfos params [] true).filter fun info => '/' ∉ info.oid := by
  rw [flattenParamInfos_false, flattenParamInfos_true, List.filter_map]
  congr 1
  apply List.filter_congr
  intro e he
  have hcomponents := components_listed hkeys he
  have htop : e.1.length = 1 ↔ '/' ∉ joinOid [] e.1 := by
    constructor
    · intro hone hslash
      obtain ⟨before, after, hsplit⟩ := List.append_of_mem hslash
      rw [hsplit, FilePath.components_append_solidus] at hcomponents
      have hlength := congrArg List.length hcomponents
      rw [List.length_append] at hlength
      have hbefore := List.length_pos_iff.mpr (FilePath.components_ne_nil before)
      have hafter := List.length_pos_iff.mpr (FilePath.components_ne_nil after)
      omega
    · intro hslash
      rw [← hcomponents, FilePath.components_of_not_mem hslash, List.length_singleton]
  simp only [Function.comp_apply, newParamInfoFromDescriptor, htop]

end Catena.Go
