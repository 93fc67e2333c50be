import Catena.Framework.Map
import Catena.Store.Descriptor

/-!
# Language packs

A device finds its language packs through `language_packs_`, a map of raw pointers. The packs
that clients have added are owned by `added_packs_`; the shipped ones live as long as the
program. The constructor of a pack registers its own address with the device, so that adding a
pack updates both maps, and assigning to `added_packs_` destroys the pack that was there.
-/

namespace Catena.Store

open Catena.Framework

/-- `st2138::LanguagePack`. -/
structure LanguagePackMessage where
  name : String := ""
  words : StringMap String := ∅

/-- `st2138::AddLanguagePayload`. -/
structure AddLanguagePayload where
  language : String
  languagePack : LanguagePackMessage

/-- `st2138::DeviceComponent_ComponentLanguagePack`. -/
structure ComponentLanguagePack where
  language : String := ""
  languagePack : LanguagePackMessage := {}

structure LanguagePack where
  name : String
  words : StringMap String

namespace LanguagePack

/-- Words of an earlier version stay where the message does not replace them. -/
def fromProto (pack : LanguagePack) (src : LanguagePackMessage) : LanguagePack where
  name := src.name
  words := insertAll pack.words src.words

def toProto (pack : LanguagePack) (dst : LanguagePackMessage) : LanguagePackMessage where
  name := pack.name
  words := insertAll dst.words pack.words

end LanguagePack

/-- Two packs with the same name and the same words. -/
def LanguagePackMessage.Same (a b : LanguagePackMessage) : Prop :=
  a.name = b.name ∧ ∀ key, a.words.lookup key = b.words.lookup key

/-- The language packs of a device. A pack is an address in `heap`; an address that is not in
`heap` dangles. -/
structure LanguageStore where
  heap : AddressMap LanguagePack := ∅
  languagePacks : StringMap Nat := ∅
  addedPacks : StringMap Nat := ∅

namespace LanguageStore

/-- The constructor of `LanguagePack`: a new object that registers itself by `addItem`. -/
def construct (s : LanguageStore) (languageCode name : String) (words : StringMap String) :
    Nat × LanguageStore :=
  let addr := freshKey s.heap
  (addr, { s with
    heap := s.heap.insert addr ⟨name, words⟩
    languagePacks := s.languagePacks.insert languageCode addr })

/-- `added_packs_[id] = pack`: the pack that was owned there is destroyed. -/
def own (s : LanguageStore) (id : String) (addr : Nat) : LanguageStore :=
  { s with
    heap := match s.addedPacks.lookup id with
      | some old => s.heap.erase old
      | none => s.heap
    addedPacks := s.addedPacks.insert id addr }

/-- `added_packs_.erase(id)`. -/
def disown (s : LanguageStore) (id : String) : LanguageStore :=
  { s with
    heap := match s.addedPacks.lookup id with
      | some old => s.heap.erase old
      | none => s.heap
    addedPacks := s.addedPacks.erase id }

/-- The pack an id refers to; `none` if there is none or its address dangles. -/
def pack (s : LanguageStore) (id : String) : Option LanguagePack :=
  (s.languagePacks.lookup id).bind s.heap.lookup

/-- `Device::getLanguagePack`: the status and the component afterwards. The result is `none` if
a dangling pointer is followed. -/
def getLanguagePack (s : LanguageStore) (languageId : String) (dst : ComponentLanguagePack) :
    Option (ExceptionWithStatus × ComponentLanguagePack) :=
  if languageId = "" then some (⟨"Language ID is empty", .invalidArgument⟩, dst)
  else
    match s.languagePacks.lookup languageId with
    | none => some (⟨"Language pack '" ++ languageId ++ "' not found", .notFound⟩, dst)
    | some addr =>
        (s.heap.lookup addr).map fun pack =>
          (.ok, ⟨languageId, pack.toProto dst.languagePack⟩)

/-- `Device::addLanguage`: the status and the store afterwards, `none` if a dangling pointer is
followed. -/
def addLanguage (s : LanguageStore) (language : AddLanguagePayload) (authz : Authorizer) :
    Option (ExceptionWithStatus × LanguageStore) :=
  let name := language.languagePack.name
  let id := language.language
  if !authz.writeAuthzScope Scopes.kAdmin.toString then
    some (⟨"Not authorized to add language", .permissionDenied⟩, s)
  else if name = "" ∨ id = "" then some (⟨"Invalid language pack", .invalidArgument⟩, s)
  else if id ∈ s.languagePacks ∧ id ∉ s.addedPacks then
    some (⟨"Cannot overwrite language pack shipped with device", .permissionDenied⟩, s)
  else
    let constructed := s.construct id name ∅
    let s := constructed.2.own id constructed.1
    (s.languagePacks.lookup id).bind fun addr =>
      (s.heap.lookup addr).map fun pack =>
        (.ok, { s with heap := s.heap.insert addr (pack.fromProto language.languagePack) })

/-- `Device::removeLanguage`. -/
def removeLanguage (s : LanguageStore) (languageId : String) (authz : Authorizer) :
    ExceptionWithStatus × LanguageStore :=
  if !authz.writeAuthzScope Scopes.kAdmin.toString then
    (⟨"Not authorized to delete language", .permissionDenied⟩, s)
  else if languageId ∈ s.languagePacks ∧ languageId ∉ s.addedPacks then
    (⟨"Cannot delete language pack shipped with device", .permissionDenied⟩, s)
  else if languageId ∉ s.languagePacks then
    (⟨"Language pack '" ++ languageId ++ "' not found", .notFound⟩, s)
  else
    let s := s.disown languageId
    (.ok, { s with languagePacks := s.languagePacks.erase languageId })

/-- The store of a device that ships these packs, constructed one after another. -/
def ofShipped (packs : List (String × LanguagePackMessage)) : LanguageStore :=
  packs.foldl (fun s p => (s.construct p.1 p.2.name p.2.words).2) {}

end LanguageStore

inductive LanguageCall where
  | addLanguage (language : AddLanguagePayload) (authz : Authorizer)
  | removeLanguage (languageId : String) (authz : Authorizer)

namespace LanguageCall

def authz : LanguageCall → Authorizer
  | .addLanguage _ authz | .removeLanguage _ authz => authz

def exec (s : LanguageStore) : LanguageCall → Option (ExceptionWithStatus × LanguageStore)
  | .addLanguage language authz => s.addLanguage language authz
  | .removeLanguage languageId authz => some (s.removeLanguage languageId authz)

/-- A run of calls: their statuses and the store afterwards. -/
def run (s : LanguageStore) : List LanguageCall → Option (List ExceptionWithStatus × LanguageStore)
  | [] => some ([], s)
  | c :: cs =>
      (c.exec s).bind fun result =>
        (run result.2 cs).map fun rest => (result.1 :: rest.1, rest.2)

/-- What a successful call makes of the packs added so far. -/
def record (added : String → Option LanguagePackMessage) (c : LanguageCall)
    (rc : ExceptionWithStatus) : String → Option LanguagePackMessage :=
  if rc.isOk then
    match c with
    | .addLanguage language _ => Function.update added language.language (some language.languagePack)
    | .removeLanguage languageId _ => Function.update added languageId none
  else added

/-- The latest successful add of each id that no successful remove has followed. -/
def latest (added : String → Option LanguagePackMessage) :
    List LanguageCall → List ExceptionWithStatus → String → Option LanguagePackMessage
  | c :: cs, rc :: rcs => latest (record added c rc) cs rcs
  | _, _ => added

end LanguageCall

namespace LanguageStore

/-- The store while the packs in `added` have been added to the shipped ones of `s₀`. -/
structure Invariant (s₀ : LanguageStore) (added : String → Option LanguagePackMessage)
    (s : LanguageStore) : Prop where
  /-- A shipped id refers to the object it was shipped with. -/
  shipped : ∀ id addr, s₀.languagePacks.lookup id = some addr →
    s.languagePacks.lookup id = some addr ∧ s.heap.lookup addr = s₀.heap.lookup addr ∧
      id ∉ s.addedPacks
  known : ∀ id ∈ s.languagePacks, id ∈ s₀.languagePacks ∨ id ∈ s.addedPacks
  owned : ∀ id addr, s.addedPacks.lookup id = some addr →
    s.languagePacks.lookup id = some addr ∧ addr ∈ s.heap
  /-- No other id refers to the object of an added one. -/
  apart : ∀ id id' addr, s.addedPacks.lookup id = some addr →
    s.languagePacks.lookup id' = some addr → id' = id
  contents : ∀ id addr, s.addedPacks.lookup id = some addr → ∃ pack message,
    s.heap.lookup addr = some pack ∧ added id = some message ∧
      (pack.toProto {}).Same message
  absent : ∀ id, id ∉ s.addedPacks → added id = none
  named : "" ∉ s.addedPacks

/-- Every pack that is registered is there, and none is owned by the device. -/
structure IsShipped (s : LanguageStore) : Prop where
  live : ∀ id addr, s.languagePacks.lookup id = some addr → addr ∈ s.heap
  none_added : s.addedPacks = ∅

theorem isShipped_construct {s : LanguageStore} (h : s.IsShipped) (id name : String)
    (words : StringMap String) : (s.construct id name words).2.IsShipped := by
  refine ⟨?_, h.none_added⟩
  intro id' addr haddr
  simp only [construct] at haddr ⊢
  by_cases hid : id' = id
  · subst hid
    rw [AList.lookup_insert] at haddr
    obtain rfl := Option.some.inj haddr
    exact (AList.mem_insert _).mpr (.inl rfl)
  · rw [AList.lookup_insert_ne hid] at haddr
    exact (AList.mem_insert _).mpr (.inr (h.live id' addr haddr))

theorem isShipped_ofShipped (packs : List (String × LanguagePackMessage)) :
    (ofShipped packs).IsShipped := by
  have hfold : ∀ s : LanguageStore, s.IsShipped →
      (packs.foldl (fun s p => (s.construct p.1 p.2.name p.2.words).2) s).IsShipped := by
    induction packs with
    | nil => exact fun _ h => h
    | cons p packs ih => exact fun s h => ih _ (isShipped_construct h p.1 p.2.name p.2.words)
  exact hfold {} ⟨fun _ _ h => (nomatch h), rfl⟩

theorem Invariant.start {s : LanguageStore} (h : s.IsShipped) :
    Invariant s (fun _ => none) s := by
  have hnot (id : String) : s.addedPacks.lookup id = none := by rw [h.none_added]; rfl
  refine ⟨?_, fun id hid => .inl hid, ?_, ?_, ?_, fun _ _ => rfl, AList.lookup_eq_none.mp (hnot "")⟩
  · exact fun id addr haddr => ⟨haddr, rfl, AList.lookup_eq_none.mp (hnot id)⟩
  · intro id addr haddr
    rw [hnot] at haddr
    cases haddr
  · intro id id' addr haddr
    rw [hnot] at haddr
    cases haddr
  · intro id addr haddr
    rw [hnot] at haddr
    cases haddr

def install (s : LanguageStore) (id : String) (pack : LanguagePack) : LanguageStore where
  heap := ((s.construct id pack.name ∅).2.own id (freshKey s.heap)).heap.insert
    (freshKey s.heap) pack
  languagePacks := s.languagePacks.insert id (freshKey s.heap)
  addedPacks := s.addedPacks.insert id (freshKey s.heap)

theorem lookup_own_construct (s : LanguageStore) (id name : String) (words : StringMap String)
    (hlive : ∀ old, s.addedPacks.lookup id = some old → old ∈ s.heap) (addr : Nat) :
    ((s.construct id name words).2.own id (freshKey s.heap)).heap.lookup addr =
      if addr = freshKey s.heap then some ⟨name, words⟩
      else if s.addedPacks.lookup id = some addr then none else s.heap.lookup addr := by
  simp only [own, construct]
  cases hold : s.addedPacks.lookup id with
  | none =>
    by_cases haddr : addr = freshKey s.heap
    · subst haddr
      simp
    · simp [haddr]
  | some old =>
    have hne : freshKey s.heap ≠ old := by
      intro heq
      exact freshKey_notMem s.heap (heq ▸ hlive old hold)
    by_cases haddr : addr = freshKey s.heap
    · subst haddr
      rw [if_pos rfl, AList.lookup_erase_ne hne, AList.lookup_insert]
    · rw [if_neg haddr]
      by_cases hsame : addr = old
      · subst hsame
        rw [if_pos rfl, AList.lookup_erase]
      · rw [if_neg (fun h => hsame (Option.some.inj h).symm), AList.lookup_erase_ne hsame,
          AList.lookup_insert_ne haddr]

theorem lookup_install_heap (s : LanguageStore) (id : String) (pack : LanguagePack)
    (hlive : ∀ old, s.addedPacks.lookup id = some old → old ∈ s.heap) (addr : Nat) :
    (s.install id pack).heap.lookup addr =
      if addr = freshKey s.heap then some pack
      else if s.addedPacks.lookup id = some addr then none else s.heap.lookup addr := by
  by_cases haddr : addr = freshKey s.heap
  · subst haddr
    simp [install]
  · rw [install, AList.lookup_insert_ne haddr, lookup_own_construct s id pack.name ∅ hlive,
      if_neg haddr, if_neg haddr]

/-- What a call to `addLanguage` can do. -/
theorem addLanguage_cases (s : LanguageStore) (language : AddLanguagePayload) (authz : Authorizer)
    (hlive : ∀ old, s.addedPacks.lookup language.language = some old → old ∈ s.heap) :
    (∃ rc, rc.isOk = false ∧ s.addLanguage language authz = some (rc, s)) ∨
    (authz.writeAuthzScope Scopes.kAdmin.toString = true ∧ language.language ≠ "" ∧
      (language.language ∈ s.languagePacks → language.language ∈ s.addedPacks) ∧
      s.addLanguage language authz = some (.ok, s.install language.language
        ⟨language.languagePack.name, insertAll ∅ language.languagePack.words⟩)) := by
  simp only [addLanguage]
  split
  · exact .inl ⟨_, rfl, rfl⟩
  · rename_i hauthz
    split
    · exact .inl ⟨_, rfl, rfl⟩
    · rename_i hnames
      split
      · exact .inl ⟨_, rfl, rfl⟩
      · rename_i hshipped
        refine .inr ⟨by simpa using hauthz, fun h => hnames (.inr h),
          fun h => by_contra fun hn => hshipped ⟨h, hn⟩, ?_⟩
        have hheap := lookup_own_construct s language.language language.languagePack.name ∅ hlive
          (freshKey s.heap)
        rw [if_pos rfl] at hheap
        have hpacks : ((s.construct language.language language.languagePack.name ∅).2.own
            language.language (freshKey s.heap)).languagePacks.lookup language.language =
              some (freshKey s.heap) := by simp [own, construct]
        change (AList.lookup _ ((s.construct language.language language.languagePack.name ∅).2.own
          language.language (freshKey s.heap)).languagePacks).bind _ = _
        rw [hpacks, Option.bind_some]
        change (AList.lookup (freshKey s.heap) ((s.construct language.language
          language.languagePack.name ∅).2.own language.language (freshKey s.heap)).heap).map _ = _
        rw [hheap, Option.map_some]
        rfl

theorem Invariant.live {s₀ s : LanguageStore} {added : String → Option LanguagePackMessage}
    (h : Invariant s₀ added s) (h₀ : s₀.IsShipped) {id : String} {addr : Nat}
    (haddr : s.languagePacks.lookup id = some addr) : addr ∈ s.heap := by
  have hmem : id ∈ s.languagePacks := AList.lookup_isSome.mp (by rw [haddr]; rfl)
  rcases h.known id hmem with hshipped | hadded
  · obtain ⟨addr₀, haddr₀⟩ := Option.isSome_iff_exists.mp (AList.lookup_isSome.mpr hshipped)
    obtain ⟨hpacks, hsame, _⟩ := h.shipped id addr₀ haddr₀
    obtain rfl := Option.some.inj (hpacks.symm.trans haddr)
    have hlive := AList.lookup_isSome.mpr (h₀.live id addr₀ haddr₀)
    rw [← hsame] at hlive
    exact AList.lookup_isSome.mp hlive
  · obtain ⟨addr₁, haddr₁⟩ := Option.isSome_iff_exists.mp (AList.lookup_isSome.mpr hadded)
    obtain ⟨hpacks, hlive⟩ := h.owned id addr₁ haddr₁
    obtain rfl := Option.some.inj (hpacks.symm.trans haddr)
    exact hlive

theorem Invariant.install {s₀ s : LanguageStore} {added : String → Option LanguagePackMessage}
    (h : Invariant s₀ added s) (h₀ : s₀.IsShipped) {id : String} (message : LanguagePackMessage)
    (hname : id ≠ "") (hshipped : id ∈ s.languagePacks → id ∈ s.addedPacks) :
    Invariant s₀ (Function.update added id (some message))
      (s.install id ⟨message.name, insertAll ∅ message.words⟩) := by
  have hheap := lookup_install_heap s id ⟨message.name, insertAll ∅ message.words⟩
    fun old hold => (h.owned id old hold).2
  have hfresh : ∀ addr ∈ s.heap, addr ≠ freshKey s.heap := by
    intro addr haddr heq
    exact freshKey_notMem s.heap (heq ▸ haddr)
  -- every object but the one of `id` stays where it is
  have hkept : ∀ id' addr, id' ≠ id → s.languagePacks.lookup id' = some addr →
      (s.install id ⟨message.name, insertAll ∅ message.words⟩).heap.lookup addr =
        s.heap.lookup addr := by
    intro id' addr hne haddr
    rw [hheap, if_neg (hfresh addr (h.live h₀ haddr)), if_neg]
    intro hid
    exact hne (h.apart id id' addr hid haddr)
  constructor
  case shipped =>
    intro id' addr haddr
    obtain ⟨hpacks, hsame, hnot⟩ := h.shipped id' addr haddr
    have hne : id' ≠ id := by
      rintro rfl
      exact hnot (hshipped (AList.lookup_isSome.mp (by rw [hpacks]; rfl)))
    refine ⟨(AList.lookup_insert_ne hne).trans hpacks, (hkept id' addr hne hpacks).trans hsame, ?_⟩
    simpa [LanguageStore.install, hne] using hnot
  case known =>
    intro id' hid'
    rcases (AList.mem_insert _).mp hid' with rfl | hmem
    · exact .inr ((AList.mem_insert _).mpr (.inl rfl))
    · exact (h.known id' hmem).imp_right fun hadded => (AList.mem_insert _).mpr (.inr hadded)
  case owned =>
    intro id' addr haddr
    by_cases hne : id' = id
    · subst hne
      obtain rfl := Option.some.inj ((AList.lookup_insert _).symm.trans haddr)
      refine ⟨AList.lookup_insert _, AList.lookup_isSome.mp ?_⟩
      rw [hheap, if_pos rfl]
      rfl
    · rw [LanguageStore.install, AList.lookup_insert_ne hne] at haddr
      obtain ⟨hpacks, hlive⟩ := h.owned id' addr haddr
      refine ⟨(AList.lookup_insert_ne hne).trans hpacks, AList.lookup_isSome.mp ?_⟩
      rw [hkept id' addr hne hpacks]
      exact AList.lookup_isSome.mpr hlive
  case apart =>
    intro id₁ id₂ addr hadded hpacks
    by_cases h₁ : id₁ = id
    · subst h₁
      obtain rfl := Option.some.inj ((AList.lookup_insert _).symm.trans hadded)
      by_contra hne
      rw [LanguageStore.install, AList.lookup_insert_ne hne] at hpacks
      exact freshKey_notMem s.heap (h.live h₀ hpacks)
    · rw [LanguageStore.install, AList.lookup_insert_ne h₁] at hadded
      have hlive := (h.owned id₁ addr hadded).2
      by_cases h₂ : id₂ = id
      · subst h₂
        rw [LanguageStore.install, AList.lookup_insert] at hpacks
        exact absurd (Option.some.inj hpacks).symm (hfresh addr hlive)
      · rw [LanguageStore.install, AList.lookup_insert_ne h₂] at hpacks
        exact h.apart id₁ id₂ addr hadded hpacks
  case contents =>
    intro id' addr haddr
    by_cases hne : id' = id
    · subst hne
      obtain rfl := Option.some.inj ((AList.lookup_insert _).symm.trans haddr)
      refine ⟨_, message, (hheap _).trans (if_pos rfl), Function.update_self .., rfl, fun key => ?_⟩
      simp [LanguagePack.toProto]
    · rw [LanguageStore.install, AList.lookup_insert_ne hne] at haddr
      obtain ⟨pack, message', hpack, hmessage, hsame⟩ := h.contents id' addr haddr
      refine ⟨pack, message', ?_, (Function.update_of_ne hne ..).trans hmessage, hsame⟩
      rw [hkept id' addr hne (h.owned id' addr haddr).1, hpack]
  case absent =>
    intro id' hid'
    have hne : id' ≠ id := by
      rintro rfl
      exact hid' ((AList.mem_insert _).mpr (.inl rfl))
    rw [Function.update_of_ne hne]
    exact h.absent id' fun hmem => hid' ((AList.mem_insert _).mpr (.inr hmem))
  case named =>
    intro hmem
    rcases (AList.mem_insert _).mp hmem with hid | hadded
    · exact hname hid.symm
    · exact h.named hadded

def uninstall (s : LanguageStore) (id : String) : LanguageStore :=
  { s.disown id with languagePacks := s.languagePacks.erase id }

/-- What a call to `removeLanguage` can do. -/
theorem removeLanguage_cases (s : LanguageStore) (languageId : String) (authz : Authorizer) :
    (∃ rc, rc.isOk = false ∧ s.removeLanguage languageId authz = (rc, s)) ∨
    (authz.writeAuthzScope Scopes.kAdmin.toString = true ∧ languageId ∈ s.addedPacks ∧
      s.removeLanguage languageId authz = (.ok, s.uninstall languageId)) := by
  simp only [removeLanguage]
  split
  · exact .inl ⟨_, rfl, rfl⟩
  · rename_i hauthz
    split
    · exact .inl ⟨_, rfl, rfl⟩
    · rename_i hshipped
      split
      · exact .inl ⟨_, rfl, rfl⟩
      · rename_i hmem
        refine .inr ⟨by simpa using hauthz, ?_, rfl⟩
        by_contra hnot
        exact hshipped ⟨not_not.mp hmem, hnot⟩

theorem lookup_uninstall_heap {s : LanguageStore} {id : String} {old : Nat}
    (hold : s.addedPacks.lookup id = some old) {addr : Nat} (hne : addr ≠ old) :
    (s.uninstall id).heap.lookup addr = s.heap.lookup addr := by
  simp only [uninstall, disown, hold]
  exact AList.lookup_erase_ne hne

theorem Invariant.uninstall {s₀ s : LanguageStore} {added : String → Option LanguagePackMessage}
    (h : Invariant s₀ added s) {id : String} (hid : id ∈ s.addedPacks) :
    Invariant s₀ (Function.update added id none) (s.uninstall id) := by
  obtain ⟨old, hold⟩ := Option.isSome_iff_exists.mp (AList.lookup_isSome.mpr hid)
  -- every object but the one of `id` stays where it is
  have hkept : ∀ id' addr, id' ≠ id → s.languagePacks.lookup id' = some addr →
      (s.uninstall id).heap.lookup addr = s.heap.lookup addr := by
    intro id' addr hne haddr
    refine lookup_uninstall_heap hold ?_
    rintro rfl
    exact hne (h.apart id id' addr hold haddr)
  have hadded : ∀ id' addr, (s.uninstall id).addedPacks.lookup id' = some addr →
      id' ≠ id ∧ s.addedPacks.lookup id' = some addr := by
    intro id' addr haddr
    have hne : id' ≠ id := by
      rintro rfl
      cases (AList.lookup_erase _ _).symm.trans haddr
    exact ⟨hne, (AList.lookup_erase_ne hne).symm.trans haddr⟩
  constructor
  case shipped =>
    intro id' addr haddr
    obtain ⟨hpacks, hsame, hnot⟩ := h.shipped id' addr haddr
    have hne : id' ≠ id := by
      rintro rfl
      exact hnot hid
    refine ⟨(AList.lookup_erase_ne hne).trans hpacks, (hkept id' addr hne hpacks).trans hsame, ?_⟩
    intro hmem
    exact hnot (AList.mem_erase.mp hmem).2
  case known =>
    intro id' hmem
    obtain ⟨hne, hmem⟩ := AList.mem_erase.mp hmem
    exact (h.known id' hmem).imp_right fun hadd => AList.mem_erase.mpr ⟨hne, hadd⟩
  case owned =>
    intro id' addr haddr
    obtain ⟨hne, haddr⟩ := hadded id' addr haddr
    obtain ⟨hpacks, hlive⟩ := h.owned id' addr haddr
    refine ⟨(AList.lookup_erase_ne hne).trans hpacks, AList.lookup_isSome.mp ?_⟩
    rw [hkept id' addr hne hpacks]
    exact AList.lookup_isSome.mpr hlive
  case apart =>
    intro id₁ id₂ addr haddr hpacks
    obtain ⟨_, haddr⟩ := hadded id₁ addr haddr
    refine h.apart id₁ id₂ addr haddr ?_
    have hne : id₂ ≠ id := by
      rintro rfl
      cases (AList.lookup_erase _ _).symm.trans hpacks
    exact (AList.lookup_erase_ne hne).symm.trans hpacks
  case contents =>
    intro id' addr haddr
    obtain ⟨hne, haddr⟩ := hadded id' addr haddr
    obtain ⟨pack, message, hpack, hmessage, hsame⟩ := h.contents id' addr haddr
    refine ⟨pack, message, ?_, (Function.update_of_ne hne ..).trans hmessage, hsame⟩
    rw [hkept id' addr hne (h.owned id' addr haddr).1, hpack]
  case absent =>
    intro id' hnot
    by_cases hne : id' = id
    · subst hne
      exact Function.update_self ..
    · rw [Function.update_of_ne hne]
      exact h.absent id' fun hmem => hnot (AList.mem_erase.mpr ⟨hne, hmem⟩)
  case named =>
    intro hmem
    exact h.named (AList.mem_erase.mp hmem).2

theorem Invariant.getLanguagePack {s₀ s : LanguageStore}
    {added : String → Option LanguagePackMessage} (h : Invariant s₀ added s) {id : String}
    {message : LanguagePackMessage} (hid : added id = some message) :
    ∃ component, s.getLanguagePack id {} = some (.ok, component) ∧ component.language = id ∧
      component.languagePack.Same message := by
  have hmem : id ∈ s.addedPacks := by
    by_contra hnot
    cases (h.absent id hnot).symm.trans hid
  obtain ⟨addr, haddr⟩ := Option.isSome_iff_exists.mp (AList.lookup_isSome.mpr hmem)
  obtain ⟨pack, message', hpack, hmessage, hsame⟩ := h.contents id addr haddr
  obtain rfl := Option.some.inj (hmessage.symm.trans hid)
  have hname : id ≠ "" := by
    rintro rfl
    exact h.named hmem
  refine ⟨⟨id, pack.toProto {}⟩, ?_, rfl, hsame⟩
  simp only [LanguageStore.getLanguagePack, if_neg hname, (h.owned id addr haddr).1, hpack,
    Option.map_some]

end LanguageStore

namespace LanguageCall

open LanguageStore

/-- A call follows no dangling pointer and keeps the invariant. If it fails it changes nothing,
and it fails without write access to the admin scope. -/
theorem exec_invariant {s₀ s : LanguageStore} {added : String → Option LanguagePackMessage}
    (h : Invariant s₀ added s) (h₀ : s₀.IsShipped) (c : LanguageCall) :
    ∃ rc s', c.exec s = some (rc, s') ∧ Invariant s₀ (record added c rc) s' ∧
      (rc.isOk = false → s' = s) ∧
      (c.authz.writeAuthzScope Scopes.kAdmin.toString = false → rc.isOk = false) := by
  cases c with
  | addLanguage language authz =>
    rcases addLanguage_cases s language authz fun old hold => (h.owned _ old hold).2 with
      ⟨rc, hrc, hexec⟩ | ⟨hauthz, hname, hshipped, hexec⟩
    · exact ⟨rc, s, hexec, by simpa [record, hrc] using h, fun _ => rfl, fun _ => hrc⟩
    · refine ⟨.ok, _, hexec, h.install h₀ language.languagePack hname hshipped, ?_, ?_⟩
      · intro hfail
        cases hfail
      · intro hdenied
        cases hauthz.symm.trans hdenied
  | removeLanguage languageId authz =>
    rcases removeLanguage_cases s languageId authz with ⟨rc, hrc, hexec⟩ | ⟨hauthz, hmem, hexec⟩
    · exact ⟨rc, s, congrArg some hexec, by simpa [record, hrc] using h, fun _ => rfl, fun _ => hrc⟩
    · refine ⟨.ok, s.uninstall languageId, congrArg some hexec, h.uninstall hmem, ?_, ?_⟩
      · intro hfail
        cases hfail
      · intro hdenied
        cases hauthz.symm.trans hdenied

theorem run_invariant {s₀ s : LanguageStore} {added : String → Option LanguagePackMessage}
    (h : Invariant s₀ added s) (h₀ : s₀.IsShipped) (calls : List LanguageCall) :
    ∃ rcs s', run s calls = some (rcs, s') ∧ Invariant s₀ (latest added calls rcs) s' := by
  induction calls generalizing s added with
  | nil => exact ⟨[], s, rfl, h⟩
  | cons c calls ih =>
    obtain ⟨rc, s₁, hexec, h₁, _⟩ := exec_invariant h h₀ c
    obtain ⟨rcs, s', hrun, h'⟩ := ih h₁
    refine ⟨rc :: rcs, s', ?_, h'⟩
    rw [run, hexec, Option.bind_some, hrun, Option.map_some]

/-- Whatever clients add and remove, the shipped packs stay as they were shipped, the added ones
are the latest successful adds, and a call that fails changes nothing. -/
theorem languagePacks_run (packs : List (String × LanguagePackMessage))
    (calls : List LanguageCall) :
    ∃ rcs s, run (ofShipped packs) calls = some (rcs, s) ∧
      (∀ id ∈ (ofShipped packs).languagePacks, ∃ pack, (ofShipped packs).pack id = some pack ∧
        s.pack id = some pack ∧ id ∉ s.addedPacks) ∧
      (∀ id addr, s.addedPacks.lookup id = some addr → id ∉ (ofShipped packs).languagePacks ∧
        s.languagePacks.lookup id = some addr ∧ addr ∈ s.heap) ∧
      (∀ id, id ∈ s.addedPacks ↔ (latest (fun _ => none) calls rcs id).isSome = true) ∧
      (∀ id message, latest (fun _ => none) calls rcs id = some message → ∃ component,
        s.getLanguagePack id {} = some (.ok, component) ∧ component.language = id ∧
          component.languagePack.Same message) ∧
      ∀ c : LanguageCall, ∃ rc s', c.exec s = some (rc, s') ∧ (rc.isOk = false → s' = s) ∧
        (c.authz.writeAuthzScope Scopes.kAdmin.toString = false → rc.isOk = false) := by
  have h₀ := isShipped_ofShipped packs
  obtain ⟨rcs, s, hrun, h⟩ := run_invariant (Invariant.start h₀) h₀ calls
  refine ⟨rcs, s, hrun, ?_, ?_, ?_, fun id message hid => h.getLanguagePack hid, ?_⟩
  · intro id hid
    obtain ⟨addr, haddr⟩ := Option.isSome_iff_exists.mp (AList.lookup_isSome.mpr hid)
    obtain ⟨pack, hpack⟩ := Option.isSome_iff_exists.mp
      (AList.lookup_isSome.mpr (h₀.live id addr haddr))
    obtain ⟨hpacks, hsame, hnot⟩ := h.shipped id addr haddr
    refine ⟨pack, ?_, ?_, hnot⟩
    · rw [LanguageStore.pack, haddr, Option.bind_some, hpack]
    · rw [LanguageStore.pack, hpacks, Option.bind_some, hsame, hpack]
  · intro id addr haddr
    refine ⟨?_, h.owned id addr haddr⟩
    intro hshipped
    obtain ⟨addr₀, haddr₀⟩ := Option.isSome_iff_exists.mp (AList.lookup_isSome.mpr hshipped)
    exact (h.shipped id addr₀ haddr₀).2.2 (AList.lookup_isSome.mp (by rw [haddr]; rfl))
  · intro id
    constructor
    · intro hmem
      obtain ⟨addr, haddr⟩ := Option.isSome_iff_exists.mp (AList.lookup_isSome.mpr hmem)
      obtain ⟨_, message, _, hmessage, _⟩ := h.contents id addr haddr
      rw [hmessage]
      rfl
    · intro hsome
      by_contra hnot
      rw [h.absent id hnot] at hsome
      cases hsome
  · intro c
    obtain ⟨rc, s', hexec, _, hfail, hdenied⟩ := exec_invariant h h₀ c
    exact ⟨rc, s', hexec, hfail, hdenied⟩

end LanguageCall

end Catena.Store
