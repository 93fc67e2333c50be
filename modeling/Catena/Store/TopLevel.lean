import Catena.Store.Subtree

/-!
# Top level parameters

`Device::getTopLevelParams` lists the top level parameters that the client may read. It resolves
the name of each again, as a json pointer, so that a name that is no identifier is lost, or ends
the loop.
-/

namespace Catena.Store

open ExceptionWithStatus (ok)

def Fields.toList : Fields → List (String × Descriptor × Ty)
  | .nil => []
  | .cons name info ty rest => (name, info, ty) :: rest.toList

namespace Device

/-- The loop of `getTopLevelParams`: the status and the parameters found. -/
def topLevelLoop (d : Device) (s : d.State) (authz : Authorizer) :
    List (String × ParamDescriptor) → ExceptionWithStatus →
      Except Thrown (ExceptionWithStatus × List (Param d.State))
  | [], status => .ok (status, [])
  | (name, param) :: params, status =>
      if authz.readAuthz param then
        match Path.parse ("/" ++ name) with
        | .error (.withStatus why) => .ok (why, [])
        | .error .outOfRange => .error .outOfRange
        | .ok path =>
            match d.getParam s path authz with
            | .error why => topLevelLoop d s authz params why
            | .ok found => do
                let (status, result) ← topLevelLoop d s authz params status
                return (status, found :: result)
      else topLevelLoop d s authz params status

/-- `Device::getTopLevelParams` entered with an OK status. -/
def getTopLevelParams (d : Device) (s : d.State) (authz : Authorizer) :
    Except Thrown (ExceptionWithStatus × List (Param d.State)) :=
  d.topLevelLoop s authz
    (d.params.toList.map fun param => (param.1, d.descriptor param.2.1 param.2.2)) ok

end Device

/-! ## Where the names that can be read are identifiers -/

theorem Fields.map_fst_toList (fields : Fields) : fields.toList.map Prod.fst = fields.names := by
  induction fields using Fields.list_induction with
  | nil => rfl
  | cons name info ty rest ih => rw [toList, names, List.map_cons, ih]

theorem Fields.mem_names_of_find {fields : Fields} {name : String} {found : Descriptor × Ty}
    (h : fields.find name = some found) : name ∈ fields.names := by
  induction fields using Fields.list_induction with
  | nil => cases h
  | cons field info ty rest ih =>
    rw [find] at h
    split at h
    · rename_i heq
      rw [heq]
      exact List.mem_cons_self
    · exact List.mem_cons_of_mem _ (ih h)

theorem Fields.find_of_mem_toList {fields : Fields} (hwf : fields.WellFormed) {name : String}
    {found : Descriptor × Ty} (h : (name, found) ∈ fields.toList) :
    fields.find name = some found := by
  induction fields using Fields.list_induction with
  | nil => cases h
  | cons field info ty rest ih =>
    rw [toList, List.mem_cons] at h
    rcases h with h | h
    · obtain ⟨rfl, rfl⟩ := Prod.mk.inj h
      exact if_pos rfl
    · have hmem : name ∈ rest.names := by
        rw [← map_fst_toList]
        exact List.mem_map_of_mem h
      have hne : field ≠ name := fun heq => hwf.1 (heq ▸ hmem)
      rw [find, if_neg hne]
      exact ih hwf.2.2 h

theorem Fields.nodup_names {fields : Fields} (hwf : fields.WellFormed) : fields.names.Nodup := by
  induction fields using Fields.list_induction with
  | nil => exact List.nodup_nil
  | cons field info ty rest ih => exact List.nodup_cons.mpr ⟨hwf.1, ih hwf.2.2⟩

namespace Device

variable {d : Device} {s : d.State} {authz : Authorizer}

theorem readAuthz_of_getParam_name {name : String} {found : Descriptor × Ty}
    (hfind : d.params.find name = some found) {param : Param d.State}
    (h : d.getParam s [.name name] authz = .ok param) :
    authz.readAuthz (d.descriptor found.1 found.2) = true :=
  ((d.getParam_ok_iff s [.name name] authz param).mp h).1 found hfind

theorem getParam_name_of_readAuthz {name : String} {found : Descriptor × Ty}
    (hfind : d.params.find name = some found)
    (h : authz.readAuthz (d.descriptor found.1 found.2) = true) :
    ∃ param, d.getParam s [.name name] authz = .ok param := by
  have hmap := Fields.find_of_findParamByName name d.params s
  rw [hfind] at hmap
  obtain ⟨member, hmember, rfl⟩ := Option.map_eq_some_iff.mp hmap.symm
  have hread : authz.readAuthz (d.descriptor member.info member.ty) = true := h
  exact ⟨{ ty := member.ty
           descriptor := d.descriptor member.info member.ty
           value := member.value
           assign := member.put }, by simp [getParam, hmember, hread]⟩

theorem topLevelLoop_eq (haddr : d.Addressed s authz) (status : ExceptionWithStatus)
    {items : List (String × Descriptor × Ty)}
    (hitems : ∀ item ∈ items, d.params.find item.1 = some item.2) :
    d.topLevelLoop s authz
        (items.map fun param => (param.1, d.descriptor param.2.1 param.2.2)) status =
      .ok (status, (items.map Prod.fst).filterMap fun name =>
        (d.getParam s [.name name] authz).toOption) := by
  induction items with
  | nil => rfl
  | cons item items ih =>
    have hfind := hitems item List.mem_cons_self
    have htail := ih fun item' hitem' => hitems item' (List.mem_cons_of_mem _ hitem')
    simp only [List.map_cons, topLevelLoop, List.filterMap_cons]
    by_cases hread : authz.readAuthz (d.descriptor item.2.1 item.2.2) = true
    · obtain ⟨param, hparam⟩ := getParam_name_of_readAuthz (s := s) hfind hread
      have hidentifier := (haddr.names [] item.1 _ (readNode_of_getParam hparam)).1
      simp only [hread, if_true, Path.parse_name hidentifier, hparam, htail]
      rfl
    · rw [if_neg hread, htail]
      cases hget : d.getParam s [.name item.1] authz with
      | error why => rfl
      | ok param => exact absurd (readAuthz_of_getParam_name hfind hget) hread

theorem getTopLevelParams_eq (haddr : d.Addressed s authz) :
    d.getTopLevelParams s authz =
      .ok (ok, d.params.names.filterMap fun name =>
        (d.getParam s [.name name] authz).toOption) := by
  have hitems : ∀ item ∈ d.params.toList, d.params.find item.1 = some item.2 :=
    fun item hitem => Fields.find_of_mem_toList d.wellFormed hitem
  rw [getTopLevelParams, topLevelLoop_eq haddr ok hitems, Fields.map_fst_toList]

theorem mem_topLevelParams_iff {param : Param d.State} :
    param ∈ (d.params.names.filterMap fun name => (d.getParam s [.name name] authz).toOption) ↔
      ∃ name, d.getParam s [.name name] authz = .ok param := by
  rw [List.mem_filterMap]
  constructor
  · rintro ⟨name, -, h⟩
    refine ⟨name, ?_⟩
    cases hget : d.getParam s [.name name] authz with
    | error why =>
      rw [hget] at h
      cases h
    | ok param' =>
      rw [hget] at h
      rw [Option.some.inj h]
  · rintro ⟨name, h⟩
    refine ⟨name, ?_, by rw [h]; rfl⟩
    obtain ⟨member, hmember, -⟩ :=
      Option.bind_eq_some_iff.mp ((d.getParam_ok_iff s [.name name] authz param).mp h).2
    have hfind := Fields.find_of_findParamByName name d.params s
    rw [hmember] at hfind
    exact Fields.mem_names_of_find hfind

end Device

end Catena.Store
