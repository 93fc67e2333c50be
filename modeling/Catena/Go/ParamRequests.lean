import Catena.Go.ParamListing

/-!
# Param info requests

The listing does not depend on the order in which Go visits the entries of a map: the keys are
sorted, and everything else is looked up. With it, every request answers the part of the full
listing that it asks for.
-/

namespace Catena.Go

open Catena.Framework

/-- The same value, with the entries of its maps in other orders. -/
inductive SameAny : Any → Any → Prop where
  | refl (a : Any) : SameAny a a
  | strings {m m' : List (Text × Text)} (h : ∀ lang, m.lookup lang = m'.lookup lang) :
      SameAny (.strings (some m)) (.strings (some m'))
  | map {m m' : AnyMap} (keys : ∀ key, (m.lookup key).isSome = (m'.lookup key).isSome)
      (h : ∀ key a a', m.lookup key = some a → m'.lookup key = some a' → SameAny a a') :
      SameAny (.map m) (.map m')

/-- The keys of every map are distinct. -/
inductive Any.Valid : Any → Prop where
  | map {m : AnyMap} (nodup : (m.map Prod.fst).Nodup)
      (h : ∀ key a, m.lookup key = some a → a.Valid) : Any.Valid (.map m)
  | strings {m : List (Text × Text)} (nodup : (m.map Prod.fst).Nodup) :
      Any.Valid (.strings (some m))
  | nilStrings : Any.Valid (.strings none)
  | string (s : Text) : Any.Valid (.string s)
  | paramType (t : Int32) : Any.Valid (.paramType t)
  | list (length : Nat) : Any.Valid (.list length)
  | other : Any.Valid .other

theorem lookup_eq_none_of_nodup {α : Type} {key : Text} {a : α} {m : List (Text × α)}
    (h : (((key, a) :: m).map Prod.fst).Nodup) : m.lookup key = none := by
  rw [List.lookup_eq_none_iff]
  intro e he
  rw [List.map_cons, List.nodup_cons] at h
  rw [bne_iff_ne]
  rintro rfl
  exact h.1 (List.mem_map.mpr ⟨e, he, rfl⟩)

theorem lookup_foldl_polyglot {m : List (Text × Text)} (h : (m.map Prod.fst).Nodup)
    (name : PolyglotText) (lang : Text) :
    (m.foldl (fun name e => name.insert e.1 e.2) name).lookup lang =
      (m.lookup lang).or (name.lookup lang) := by
  induction m generalizing name with
  | nil => rfl
  | cons e m ih =>
    obtain ⟨key, s⟩ := e
    rw [List.foldl_cons, ih (List.nodup_cons.mp h).2, List.lookup_cons]
    by_cases hkey : lang = key
    · subst hkey
      rw [lookup_eq_none_of_nodup h, Finmap.lookup_insert, beq_self_eq_true]
      rfl
    · rw [Finmap.lookup_insert_of_ne _ hkey, beq_false_of_ne hkey]

theorem lookup_foldl_displayStrings {m : AnyMap} (h : (m.map Prod.fst).Nodup)
    (name : PolyglotText) (lang : Text) :
    (m.foldl (fun name e =>
        match e.2 with
        | .string s => name.insert e.1 s
        | _ => name) name).lookup lang =
      match m.lookup lang with
      | some (.string s) => some s
      | _ => name.lookup lang := by
  induction m generalizing name with
  | nil => rfl
  | cons e m ih =>
    obtain ⟨key, a⟩ := e
    rw [List.foldl_cons, ih (List.nodup_cons.mp h).2, List.lookup_cons]
    by_cases hkey : lang = key
    · subst hkey
      rw [lookup_eq_none_of_nodup h, beq_self_eq_true]
      cases a with
      | string s => exact Finmap.lookup_insert name
      | map m => rfl
      | strings m => rfl
      | paramType t => rfl
      | list length => rfl
      | other => rfl
    · rw [beq_false_of_ne hkey]
      cases a with
      | string s =>
        simp only
        rw [Finmap.lookup_insert_of_ne _ hkey]
      | map m => rfl
      | strings m => rfl
      | paramType t => rfl
      | list length => rfl
      | other => rfl

theorem SameAny.cases' {a a' : Any} (h : SameAny a a') :
    (∃ m m', a = .map m ∧ a' = .map m' ∧ SameAny (.map m) (.map m')) ∨
    (∃ m m', a = .strings (some m) ∧ a' = .strings (some m') ∧
      ∀ lang, m.lookup lang = m'.lookup lang) ∨
    a = a' ∧ ∀ m, a ≠ .map m := by
  cases h with
  | refl =>
    cases a with
    | map m => exact .inl ⟨m, m, rfl, rfl, .refl _⟩
    | strings m => exact .inr (.inr ⟨rfl, nofun⟩)
    | string s => exact .inr (.inr ⟨rfl, nofun⟩)
    | paramType t => exact .inr (.inr ⟨rfl, nofun⟩)
    | list length => exact .inr (.inr ⟨rfl, nofun⟩)
    | other => exact .inr (.inr ⟨rfl, nofun⟩)
  | strings h => exact .inr (.inl ⟨_, _, rfl, rfl, h⟩)
  | map keys h => exact .inl ⟨_, _, rfl, rfl, .map keys h⟩

theorem Any.Valid.lookup {m : AnyMap} {key : Text} {a : Any} (h : Any.Valid (.map m))
    (hlookup : m.lookup key = some a) : a.Valid := by
  cases h with
  | map _ hall => exact hall key a hlookup

theorem Any.valid_nil : Any.Valid (.map []) := by
  refine .map List.nodup_nil fun key a h => ?_
  cases h

theorem childParamMap_eq_none {m : AnyMap}
    (h : ∀ n, m.lookup "params".toList ≠ some (.map n)) : childParamMap m = none := by
  rw [childParamMap]
  split
  · rename_i children hmap
    exact absurd hmap (h children)
  · rfl

section Order

variable {m m' : AnyMap} (hsame : SameAny (.map m) (.map m'))
include hsame

theorem lookup_same (key : Text) :
    m.lookup key = none ∧ m'.lookup key = none ∨
      ∃ a a', m.lookup key = some a ∧ m'.lookup key = some a' ∧ SameAny a a' := by
  cases hsame with
  | refl =>
    cases hlookup : m.lookup key with
    | none => exact .inl ⟨rfl, rfl⟩
    | some a => exact .inr ⟨a, a, rfl, rfl, .refl a⟩
  | map hkeys h =>
    have hsome := hkeys key
    cases hlookup : m.lookup key with
    | none =>
      rw [hlookup] at hsome
      have hnone := Option.not_isSome_iff_eq_none.mp (by rw [← hsome]; decide)
      exact .inl ⟨rfl, hnone⟩
    | some a =>
      rw [hlookup] at hsome
      obtain ⟨a', hlookup'⟩ := Option.isSome_iff_exists.mp hsome.symm
      exact .inr ⟨a, a', rfl, hlookup', h key a a' hlookup hlookup'⟩

/-- Whatever is read at a key that holds no map of any values is the same. -/
theorem lookup_same_cases (key : Text) :
    (∃ n n', m.lookup key = some (.map n) ∧ m'.lookup key = some (.map n') ∧
      SameAny (.map n) (.map n')) ∨
    (∃ n n', m.lookup key = some (.strings (some n)) ∧ m'.lookup key = some (.strings (some n')) ∧
      ∀ lang, n.lookup lang = n'.lookup lang) ∨
    m.lookup key = m'.lookup key ∧ ∀ n, m.lookup key ≠ some (.map n) := by
  rcases lookup_same hsame key with ⟨h, h'⟩ | ⟨a, a', h, h', hvalue⟩
  · exact .inr (.inr ⟨h.trans h'.symm, fun n => by rw [h]; nofun⟩)
  · rw [h, h']
    rcases hvalue.cases' with ⟨n, n', rfl, rfl, hn⟩ | ⟨n, n', rfl, rfl, hn⟩ | ⟨rfl, hn⟩
    · exact .inl ⟨n, n', rfl, rfl, hn⟩
    · exact .inr (.inl ⟨n, n', rfl, rfl, hn⟩)
    · exact .inr (.inr ⟨rfl, fun n heq => hn n (Option.some.inj heq)⟩)

theorem childParamMap_same :
    childParamMap m = none ∧ childParamMap m' = none ∨
      ∃ children children', childParamMap m = some children ∧
        childParamMap m' = some children' ∧ SameAny (.map children) (.map children') := by
  rcases lookup_same_cases hsame "params".toList with
    ⟨n, n', h, h', hn⟩ | ⟨n, n', h, h', -⟩ | ⟨h, hn⟩
  · rw [childParamMap, childParamMap, h, h']
    exact .inr ⟨n, n', rfl, rfl, hn⟩
  · rw [childParamMap, childParamMap, h, h']
    exact .inl ⟨rfl, rfl⟩
  · exact .inl ⟨childParamMap_eq_none hn, childParamMap_eq_none (by rwa [← h])⟩

theorem displayStringsOf_same (hvalid : Any.Valid (.map m)) (hvalid' : Any.Valid (.map m')) :
    displayStringsOf m = displayStringsOf m' := by
  apply Finmap.ext_lookup
  intro lang
  cases hvalid with
  | map hnodup _ =>
    cases hvalid' with
    | map hnodup' _ =>
      have hname : (displayStringsOf m).lookup lang = _ :=
        lookup_foldl_displayStrings hnodup ∅ lang
      have hname' : (displayStringsOf m').lookup lang = _ :=
        lookup_foldl_displayStrings hnodup' ∅ lang
      rw [hname, hname']
      rcases lookup_same_cases hsame lang with ⟨n, n', h, h', -⟩ | ⟨n, n', h, h', -⟩ | ⟨h, -⟩
      · rw [h, h']
      · rw [h, h']
      · rw [h]

theorem paramDisplayName_same (hvalid : Any.Valid (.map m)) (hvalid' : Any.Valid (.map m')) :
    paramDisplayName m = paramDisplayName m' := by
  rw [paramDisplayName, paramDisplayName]
  rcases lookup_same_cases hsame "name".toList with ⟨n, n', h, h', hn⟩ | ⟨n, n', h, h', -⟩ | ⟨h, -⟩
  · have hn_valid := hvalid.lookup h
    have hn_valid' := hvalid'.lookup h'
    simp only [h, h']
    rcases lookup_same_cases hn "display_strings".toList with
      ⟨d, d', hd, hd', hdd⟩ | ⟨d, d', hd, hd', hdd⟩ | ⟨hd, -⟩
    · simp only [hd, hd',
        displayStringsOf_same hdd (hn_valid.lookup hd) (hn_valid'.lookup hd')]
    · simp only [hd, hd', Option.map_some]
      congr 1
      apply Finmap.ext_lookup
      intro lang
      cases hn_valid.lookup hd with
      | strings hnodup =>
        cases hn_valid'.lookup hd' with
        | strings hnodup' =>
          rw [polyglotOf, polyglotOf, lookup_foldl_polyglot hnodup, lookup_foldl_polyglot hnodup',
            hdd lang]
    · rw [hd]
  · rw [h, h']
  · rw [h]

theorem repeatedFieldLength_same (key : Text) :
    repeatedFieldLength (m.lookup key) = repeatedFieldLength (m'.lookup key) := by
  rcases lookup_same_cases hsame key with ⟨n, n', h, h', -⟩ | ⟨n, n', h, h', -⟩ | ⟨h, -⟩
  · rw [h, h']
    rfl
  · rw [h, h']
    rfl
  · rw [h]

theorem paramArrayLength_same : paramArrayLength m = paramArrayLength m' := by
  rw [paramArrayLength, paramArrayLength]
  rcases lookup_same_cases hsame "type".toList with ⟨n, n', h, h', -⟩ | ⟨n, n', h, h', -⟩ | ⟨h, -⟩
  · rw [h, h']
  · rw [h, h']
  · rw [h]
    cases m'.lookup "type".toList with
    | none => rfl
    | some a =>
      cases a with
      | paramType t =>
        simp only
        by_cases harray : isArrayParamType t = true
        · rw [if_pos harray, if_pos harray]
          rcases lookup_same_cases hsame "value".toList with
            ⟨n, n', hv, hv', hn⟩ | ⟨n, n', hv, hv', -⟩ | ⟨hv, -⟩
          · rw [hv, hv']
            simp only
            congr 2
            funext field
            rcases lookup_same_cases hn field.1 with
              ⟨l, l', hl, hl', hlist⟩ | ⟨l, l', hl, hl', -⟩ | ⟨hl, -⟩
            · rw [hl, hl']
              exact repeatedFieldLength_same hlist field.2
            · rw [hl, hl']
            · rw [hl]
          · rw [hv, hv']
          · rw [hv]
        · rw [if_neg harray, if_neg harray]
      | _ => rfl

theorem newParamInfoFromDescriptor_same (hvalid : Any.Valid (.map m))
    (hvalid' : Any.Valid (.map m')) (oid : Text) :
    newParamInfoFromDescriptor oid m = newParamInfoFromDescriptor oid m' := by
  rw [newParamInfoFromDescriptor, newParamInfoFromDescriptor,
    paramDisplayName_same hsame hvalid hvalid', paramArrayLength_same hsame]
  congr 1
  · rcases lookup_same_cases hsame "type".toList with ⟨n, n', h, h', -⟩ | ⟨n, n', h, h', -⟩ | ⟨h, -⟩
    · rw [h, h']
    · rw [h, h']
    · rw [h]
  · rcases lookup_same_cases hsame "template_oid".toList with
      ⟨n, n', h, h', -⟩ | ⟨n, n', h, h', -⟩ | ⟨h, -⟩
    · rw [h, h']
    · rw [h, h']
    · rw [h]

omit hsame in
theorem isSome_lookup_iff {key : Text} : (m.lookup key).isSome = true ↔ key ∈ m.map Prod.fst := by
  rw [List.lookup_isSome_iff, List.mem_map]
  simp only [beq_iff_eq]
  exact ⟨fun ⟨e, he, heq⟩ => ⟨e, he, heq.symm⟩, fun ⟨e, he, heq⟩ => ⟨e, he, heq.symm⟩⟩

theorem sortedKeys_same (hvalid : Any.Valid (.map m)) (hvalid' : Any.Valid (.map m')) :
    sortedKeys m = sortedKeys m' := by
  have hmem : ∀ key, key ∈ m.map Prod.fst ↔ key ∈ m'.map Prod.fst := by
    intro key
    rw [← isSome_lookup_iff, ← isSome_lookup_iff]
    rcases lookup_same hsame key with ⟨h, h'⟩ | ⟨a, a', h, h', -⟩
    · rw [h, h']
    · rw [h, h', Option.isSome_some, Option.isSome_some]
  cases hvalid with
  | map hnodup _ =>
    cases hvalid' with
    | map hnodup' _ =>
      have hperm : (sortedKeys m).Perm (sortedKeys m') :=
        (List.perm_insertionSort _ _).trans
          (((List.perm_ext_iff_of_nodup hnodup hnodup').mpr hmem).trans
            (List.perm_insertionSort _ _).symm)
      exact List.Perm.eq_of_pairwise' (List.pairwise_insertionSort _ _)
        (List.pairwise_insertionSort _ _) hperm

omit hsame in
theorem Any.Valid.childParamMap {paramInfo children : AnyMap}
    (h : Any.Valid (.map paramInfo)) (hchildren : childParamMap paramInfo = some children) :
    Any.Valid (.map children) := by
  rw [Go.childParamMap] at hchildren
  split at hchildren
  · rename_i hlookup
    obtain rfl := Option.some.inj hchildren
    exact h.lookup hlookup
  · cases hchildren

end Order

def infosAt (paramInfo : AnyMap) (oid : Text) (recursive : Bool) : List ParamInfo :=
  newParamInfoFromDescriptor oid paramInfo ::
    if recursive then
      match childParamMap paramInfo with
      | some children => flattenParamInfos children oid true
      | none => []
    else []

theorem flattenParamInfos_eq (params : AnyMap) (base : Text) (recursive : Bool) :
    flattenParamInfos params base recursive = (sortedKeys params).flatMap fun key =>
      match params.lookup key with
      | some (.map paramInfo) =>
          infosAt paramInfo (if base ≠ [] then base ++ '/' :: key else key) recursive
      | _ => [] := by
  rw [flattenParamInfos]
  congr 1
  funext key
  split
  · rename_i paramInfo hlookup
    simp only [hlookup, infosAt]
    congr 2
    split
    · rename_i children hchildren
      simp only [hchildren]
    · rename_i hnone
      simp only [hnone]
  · rename_i hother
    split
    · rename_i paramInfo hlookup
      exact absurd hlookup (hother paramInfo)
    · rfl

/-- The listing does not depend on the order of the entries of any map. -/
theorem flattenParamInfos_same {params params' : AnyMap}
    (hsame : SameAny (.map params) (.map params')) (hvalid : Any.Valid (.map params))
    (hvalid' : Any.Valid (.map params')) (base : Text) (recursive : Bool) :
    flattenParamInfos params base recursive = flattenParamInfos params' base recursive := by
  induction params using params_induction generalizing params' base recursive with
  | step params ih =>
    rw [flattenParamInfos_eq, flattenParamInfos_eq, sortedKeys_same hsame hvalid hvalid']
    congr 1
    funext key
    rcases lookup_same_cases hsame key with ⟨n, n', h, h', hn⟩ | ⟨n, n', h, h', -⟩ | ⟨h, -⟩
    · rw [h, h']
      have hinfo := newParamInfoFromDescriptor_same hn (hvalid.lookup h) (hvalid'.lookup h')
      simp only [infosAt, hinfo]
      congr 2
      rcases childParamMap_same hn with ⟨hc, hc'⟩ | ⟨children, children', hc, hc', hchildren⟩
      · rw [hc, hc']
      · rw [hc, hc']
        exact ih key n children h hc hchildren ((hvalid.lookup h).childParamMap hc)
          ((hvalid'.lookup h').childParamMap hc') _ true
    · rw [h, h']
    · rw [h]

theorem findFrom_same (path : List Text) {params params' current current' : AnyMap}
    (hsame : SameAny (.map params) (.map params'))
    (hcurrent : SameAny (.map current) (.map current'))
    (hvalid : Any.Valid (.map params)) (hvalid' : Any.Valid (.map params'))
    (hcvalid : Any.Valid (.map current)) (hcvalid' : Any.Valid (.map current')) :
    findFrom path current params = none ∧ findFrom path current' params' = none ∨
      ∃ n n', findFrom path current params = some n ∧ findFrom path current' params' = some n' ∧
        SameAny (.map n) (.map n') ∧ Any.Valid (.map n) ∧ Any.Valid (.map n') := by
  induction path generalizing params params' current current' with
  | nil => exact .inr ⟨current, current', rfl, rfl, hcurrent, hcvalid, hcvalid'⟩
  | cons part path ih =>
    rcases lookup_same_cases hsame part with ⟨n, n', h, h', hn⟩ | ⟨n, n', h, h', -⟩ | ⟨h, hn⟩
    · rw [findFrom_map h, findFrom_map h']
      have hnv := hvalid.lookup h
      have hnv' := hvalid'.lookup h'
      rcases childParamMap_same hn with ⟨hc, hc'⟩ | ⟨children, children', hc, hc', hchildren⟩
      · rw [hc, hc']
        exact ih (.refl _) hn Any.valid_nil Any.valid_nil hnv hnv'
      · rw [hc, hc']
        exact ih hchildren hn (hnv.childParamMap hc) (hnv'.childParamMap hc') hnv hnv'
    · rw [findFrom_other (by rw [h]; nofun), findFrom_other (by rw [h']; nofun)]
      exact .inl ⟨rfl, rfl⟩
    · rw [findFrom_other hn, findFrom_other (by rwa [← h])]
      exact .inl ⟨rfl, rfl⟩

/-- No request depends on the order of the entries of any map. -/
theorem paramInfosForRequest_same {deviceDefinition deviceDefinition' : AnyMap}
    (hsame : SameAny (.map deviceDefinition) (.map deviceDefinition'))
    (hvalid : Any.Valid (.map deviceDefinition)) (hvalid' : Any.Valid (.map deviceDefinition'))
    (fqoid : Text) (recursive : Bool) :
    paramInfosForRequest fqoid deviceDefinition recursive =
      paramInfosForRequest fqoid deviceDefinition' recursive := by
  rw [paramInfosForRequest, paramInfosForRequest]
  rcases lookup_same_cases hsame "params".toList with
    ⟨n, n', h, h', hn⟩ | ⟨n, n', h, h', -⟩ | ⟨h, hn⟩
  · rw [h, h']
    have hnv := hvalid.lookup h
    have hnv' := hvalid'.lookup h'
    simp only [paramInfosOf, findParamDescriptor]
    split
    · rw [flattenParamInfos_same hn hnv hnv']
    · rcases findFrom_same (FilePath.components (trimSlash fqoid)) hn (.refl (.map [])) hnv hnv'
        Any.valid_nil Any.valid_nil with ⟨hf, hf'⟩ | ⟨p, p', hf, hf', hp, hpv, hpv'⟩
      · rw [hf, hf']
      · rw [hf, hf']
        simp only [newParamInfoFromDescriptor_same hp hpv hpv']
        congr 3
        rcases childParamMap_same hp with ⟨hc, hc'⟩ | ⟨children, children', hc, hc', hchildren⟩
        · rw [hc, hc']
        · rw [hc, hc']
          exact flattenParamInfos_same hchildren (hpv.childParamMap hc) (hpv'.childParamMap hc') _ _
  · rw [h, h']
  · rw [← h]

/-! ## All requests -/

/-- The requests of a definition answer the parts of its full listing. -/
structure Consistent (deviceDefinition : AnyMap) (listing : List ParamInfo) : Prop where
  root : ∀ fqoid, trimSlash fqoid = [] →
    paramInfosForRequest fqoid deviceDefinition true = .ok listing ∧
    paramInfosForRequest fqoid deviceDefinition false =
      .ok (listing.filter fun info => '/' ∉ info.oid)
  found : ∀ fqoid, trimSlash fqoid ≠ [] → (∃ info ∈ listing, info.oid = trimSlash fqoid) →
    ∃ infos, infos <:+: listing ∧
      infos = listing.filter (fun info => Covers (trimSlash fqoid) info.oid) ∧
      paramInfosForRequest fqoid deviceDefinition true = .ok infos ∧
      paramInfosForRequest fqoid deviceDefinition false = .ok (infos.take 1)
  notFound : ∀ fqoid, trimSlash fqoid ≠ [] → ∀ recursive,
    (∃ why, paramInfosForRequest fqoid deviceDefinition recursive = .error ⟨.notFound, why⟩) ↔
      ¬∃ info ∈ listing, info.oid = trimSlash fqoid
  distinct : ∀ fqoid recursive infos,
    paramInfosForRequest fqoid deviceDefinition recursive = .ok infos →
      (infos.map ParamInfo.oid).Nodup
  order : ∀ deviceDefinition', SameAny (.map deviceDefinition) (.map deviceDefinition') →
    Any.Valid (.map deviceDefinition') → ∀ fqoid recursive,
      paramInfosForRequest fqoid deviceDefinition' recursive =
        paramInfosForRequest fqoid deviceDefinition recursive

/-- A definition with params whose keys have no slashes answers every request by the part of its
full listing that lies at and below the oid, and a request for nothing listed with `NOT_FOUND`. -/
theorem paramInfos_consistent (deviceDefinition params : AnyMap)
    (hparams : deviceDefinition.lookup "params".toList = some (.map params))
    (hvalid : Any.Valid (.map deviceDefinition)) (hkeys : WellKeyed params) :
    ∃ listing, paramInfosForRequest [] deviceDefinition true = .ok listing ∧
      Consistent deviceDefinition listing := by
  have hrequest : ∀ fqoid recursive, paramInfosForRequest fqoid deviceDefinition recursive =
      paramInfosOf params (trimSlash fqoid) recursive := by
    intro fqoid recursive
    simp only [paramInfosForRequest, hparams]
  have hroot : ∀ recursive, paramInfosOf params [] recursive =
      .ok (flattenParamInfos params [] recursive) := fun recursive => if_pos rfl
  have hnodup := oids_nodup hkeys
  have hsub : ∀ infos : List ParamInfo, infos.Sublist (flattenParamInfos params [] true) →
      (infos.map ParamInfo.oid).Nodup := fun infos h => (h.map _).nodup hnodup
  refine ⟨flattenParamInfos params [] true, (hrequest [] true).trans (hroot true), ?_⟩
  constructor
  · intro fqoid hoid
    rw [hrequest, hrequest, hoid, hroot, hroot, flattenParamInfos_top hkeys]
    exact ⟨rfl, rfl⟩
  · intro fqoid hoid hsome
    obtain ⟨htrue, hfalse⟩ := (paramInfosOf_consistent hkeys hoid).1 hsome
    rw [hrequest, hrequest]
    exact ⟨_, (filter_covers hkeys (trimSlash fqoid) []).2, rfl, htrue, hfalse⟩
  · intro fqoid hoid recursive
    obtain ⟨hfound, hnone⟩ := paramInfosOf_consistent hkeys hoid
    rw [hrequest]
    constructor
    · rintro ⟨why, hwhy⟩ hsome
      obtain ⟨htrue, hfalse⟩ := hfound hsome
      cases recursive with
      | true => exact nomatch htrue.symm.trans hwhy
      | false => exact nomatch hfalse.symm.trans hwhy
    · exact fun hnot => ⟨_, hnone hnot recursive⟩
  · intro fqoid recursive infos hinfos
    rw [hrequest] at hinfos
    by_cases hoid : trimSlash fqoid = []
    · rw [hoid, hroot] at hinfos
      obtain rfl := Except.ok.inj hinfos
      cases recursive with
      | true => exact hnodup
      | false =>
        rw [flattenParamInfos_top hkeys]
        exact hsub _ List.filter_sublist
    · obtain ⟨hfound, hnone⟩ := paramInfosOf_consistent hkeys hoid
      by_cases hsome : ∃ info ∈ flattenParamInfos params [] true, info.oid = trimSlash fqoid
      · obtain ⟨htrue, hfalse⟩ := hfound hsome
        cases recursive with
        | true =>
          obtain rfl := Except.ok.inj (htrue.symm.trans hinfos)
          exact hsub _ List.filter_sublist
        | false =>
          obtain rfl := Except.ok.inj (hfalse.symm.trans hinfos)
          exact hsub _ ((List.take_sublist 1 _).trans List.filter_sublist)
      · rw [hnone hsome recursive] at hinfos
        cases hinfos
  · intro deviceDefinition' hsame hvalid' fqoid recursive
    exact (paramInfosForRequest_same hsame hvalid hvalid' fqoid recursive).symm

theorem Any.Valid.of_mem {m : AnyMap} (hnodup : (m.map Prod.fst).Nodup)
    (h : ∀ e ∈ m, e.2.Valid) : Any.Valid (.map m) := by
  refine .map hnodup fun key a hlookup => ?_
  exact h (key, a) (mem_of_lookup hlookup)

theorem WellKeyed.of_mem {params : AnyMap} (hnodup : (params.map Prod.fst).Nodup)
    (hkeys : ∀ e ∈ params, e.1 ≠ [] ∧ '/' ∉ e.1)
    (h : ∀ e ∈ params, ∀ paramInfo children, e.2 = .map paramInfo →
      childParamMap paramInfo = some children → WellKeyed children) : WellKeyed params := by
  refine ⟨params, hnodup, ?_, ?_⟩
  · intro key hkey
    obtain ⟨e, he, rfl⟩ := List.mem_map.mp hkey
    exact hkeys e he
  · intro key paramInfo children hlookup hchildren
    exact h (key, .map paramInfo) (mem_of_lookup hlookup) paramInfo children rfl hchildren

/-- A param `b` with a param `c` below it, a param `a`, and an entry that is no param. -/
def sampleParams : AnyMap :=
  [("b".toList, .map [("params".toList, .map [("c".toList, .map [])])]),
    ("a".toList, .map [("type".toList, .paramType 7)]), ("x".toList, .other)]

theorem paramInfos_consistent_sample :
    Any.Valid (.map [("params".toList, .map sampleParams)]) ∧ WellKeyed sampleParams ∧
      ∃ listing, paramInfosForRequest [] [("params".toList, .map sampleParams)] true =
          .ok listing ∧
        Consistent [("params".toList, .map sampleParams)] listing := by
  have hvalid : Any.Valid (.map [("params".toList, .map sampleParams)]) := by
    refine .of_mem (by decide) (List.forall_mem_singleton.mpr ?_)
    refine .of_mem (by decide) ?_
    simp only [sampleParams, List.forall_mem_cons]
    refine ⟨.of_mem (by decide) (List.forall_mem_singleton.mpr ?_), ?_, .other, nofun⟩
    · exact .of_mem (by decide) (List.forall_mem_singleton.mpr Any.valid_nil)
    · exact .of_mem (by decide) (List.forall_mem_singleton.mpr (.paramType 7))
  have hkeys : WellKeyed sampleParams := by
    refine .of_mem (by decide) (by simp [sampleParams]) ?_
    simp only [sampleParams, List.forall_mem_cons]
    refine ⟨?_, ?_, nofun, nofun⟩
    · rintro _ children ⟨⟩ hchildren
      obtain rfl := Option.some.inj hchildren
      refine .of_mem (by decide) (by simp) ?_
      rw [List.forall_mem_singleton]
      rintro _ children ⟨⟩ hnone
      cases hnone
    · rintro _ children ⟨⟩ hnone
      cases hnone
  exact ⟨hvalid, hkeys, paramInfos_consistent _ sampleParams rfl hvalid hkeys⟩

/-- The empty oid names no entry, but is answered; and a definition without params has no entries
but does not answer `NOT_FOUND`. -/
theorem empty_oid_answered :
    WellKeyed [] ∧
      paramInfosForRequest [] [("params".toList, .map [])] true = .ok [] ∧
      paramInfosForRequest "a".toList [] true =
        .error ⟨.internal, "invalid device params structure"⟩ := by
  refine ⟨wellKeyed_nil, ?_, rfl⟩
  have hlisting : flattenParamInfos [] [] true = [] := by
    rw [flattenParamInfos_eq]
    rfl
  exact congrArg Except.ok hlisting

end Catena.Go
