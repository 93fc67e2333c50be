import Mathlib.Algebra.Group.Int.Defs
import Mathlib.Algebra.Group.Nat.Defs
import Catena.Common.Substitution
import Catena.Framework.FilePath
import Catena.Store.Descriptor

/-!
# Assets

The files of a device are addressed by the path of the request, which is written directly after
the root directory of the service. Nothing looks at the components of that text. So a request
whose path climbs above the root gets there, unless it comes back through the same directories,
and a gRPC oid without a leading slash names a neighbour of the root.
-/

namespace Catena.Rpc

open Store Catena.Common Catena.Framework

/-- `RESTMethod`. -/
inductive RESTMethod where
  | none
  | get
  | post
  | put
  | patch
  | delete
  | head
  | options
  deriving DecidableEq, Repr

def isSpace (c : Char) : Bool :=
  c = ' ' || c = '\t' || c = '\n' || c = '\x0b' || c = '\x0c' || c = '\r'

/-- `std::stoi`, `none` if it throws. -/
def stoi (text : Text) : Option Int :=
  let text := text.dropWhile isSpace
  let negative := text.head? = some '-'
  let digits := (if negative ∨ text.head? = some '+' then text.tail else text).takeWhile Char.isDigit
  let magnitude : Int := digits.foldl (fun n c => 10 * n + (c.toNat - '0'.toNat)) 0
  let value := if negative then -magnitude else magnitude
  if digits = [] ∨ value < -2 ^ 31 ∨ 2 ^ 31 ≤ value then none else some value

/-- The members of `SocketReader` that the URL determines. -/
structure SocketReader where
  slot : UInt32 := 0
  endpoint : Text := []
  fqoid : Text := []
  stream : Bool := false

/-- The URL parsing of `SocketReader::read`, `none` if it throws. -/
def SocketReader.readUrl (version urlPath : Text) : Option SocketReader :=
  let path := split urlPath ['/']
  match path with
  | _ :: api :: version' :: slot :: _ =>
      if api = "st2138-api".toList ∧ version' = version then
        let reader : SocketReader := match stoi slot with
          | some value => { slot := UInt32.ofInt value }
          | none => { endpoint := '/' :: slot }
        let stream := path.getLast? = some "stream".toList
        let path := if stream then path.dropLast else path
        let reader := { reader with stream }
        let join (parts : List Text) : Text := parts.flatMap ('/' :: ·)
        if 4 < path.length then
          if reader.endpoint = [] then some { reader with
            endpoint := join ((path.drop 4).take 1)
            fqoid := join (path.drop 5) }
          else some { reader with fqoid := join (path.drop 4) }
        else some reader
      else none
  | _ => none

/-- A call on a file. -/
inductive FileAccess where
  | read (path : Text)
  | write (path : Text)
  | remove (path : Text)

def FileAccess.path : FileAccess → Text
  | .read path | .write path | .remove path => path

/-- How the file system and zlib answer. `readError` is what an exception says that ends the
reading of a file. -/
structure AssetEnv where
  fileExists : Text → Bool
  opens : Text → Bool
  readError : Text → Option String
  removes : Text → Bool
  zlib : Option ExceptionWithStatus

/-- The request as `AssetRequest` sees it. The token is `none` if it is not valid. -/
structure AssetContext where
  method : RESTMethod
  slot : UInt32
  fqoid : Text
  compression : String := ""
  token : Option Authorizer

namespace AssetContext

/-- What a call to zlib throws, if the request asks for one. -/
def zlibError (context : AssetContext) (env : AssetEnv) : Option ExceptionWithStatus :=
  if context.compression = "GZIP" ∨ context.compression = "DEFLATE" then env.zlib else none

def mayDownload (authz : Authorizer) : Bool :=
  authz.readAuthzScope Scopes.kOperate.toString || authz.readAuthzScope Scopes.kConfig.toString ||
    authz.readAuthzScope Scopes.kAdmin.toString || authz.readAuthzScope Scopes.kMonitor.toString

/-- Write access in any scope other than monitoring. -/
def mayUpload (authz : Authorizer) : Bool :=
  authz.writeAuthzScope Scopes.kOperate.toString || authz.writeAuthzScope Scopes.kConfig.toString ||
    authz.writeAuthzScope Scopes.kAdmin.toString

/-- `extractPayload`: what it does to files, and the status of the request. -/
def extractPayload (context : AssetContext) (env : AssetEnv) (objectId : Nat) (filePath : Text) :
    List FileAccess × ExceptionWithStatus :=
  match context.zlibError env with
  | some error => ([], error)
  | none =>
      if env.opens filePath then ([.write filePath], ⟨"", .noContent⟩)
      else ([.write filePath], ⟨"AssetRequest[" ++ toString objectId ++
        "] failed to open file for writing: " ++ String.ofList filePath, .internal⟩)

/-- `GET/asset`. -/
def download (context : AssetContext) (env : AssetEnv) (objectId : Nat) (authz : Authorizer)
    (path : Text) : List FileAccess × ExceptionWithStatus :=
  let request := "AssetRequest[" ++ toString objectId ++ "]"
  let fqoid := String.ofList context.fqoid
  if !mayDownload authz then ([], ⟨"Not authorized to download asset", .permissionDenied⟩)
  else if !env.fileExists path then
    ([], ⟨request ++ " for file: " ++ fqoid ++ " not found", .notFound⟩)
  else if !env.opens path then
    ([.read path], ⟨request ++ " failed to open file: " ++ fqoid ++ "\n", .internal⟩)
  else
    match env.readError path with
    | some what => ([.read path], ⟨request ++ " error: " ++ what ++ "\n", .internal⟩)
    | none => ([.read path], (context.zlibError env).getD .ok)

/-- `POST/asset`. -/
def create (context : AssetContext) (env : AssetEnv) (objectId : Nat) (authz : Authorizer)
    (filePath : Text) : List FileAccess × ExceptionWithStatus :=
  if !mayUpload authz then ([], ⟨"Not authorized to POST asset", .permissionDenied⟩)
  else if env.fileExists filePath then
    ([], ⟨"file: " ++ String.ofList filePath ++ " already exists", .alreadyExists⟩)
  else context.extractPayload env objectId filePath

/-- `PUT/asset`. -/
def overwrite (context : AssetContext) (env : AssetEnv) (objectId : Nat) (authz : Authorizer)
    (filePath : Text) : List FileAccess × ExceptionWithStatus :=
  if !mayUpload authz then ([], ⟨"Not authorized to PUT asset", .permissionDenied⟩)
  else if !env.fileExists filePath then
    ([], ⟨"file: " ++ String.ofList filePath ++ " not found", .notFound⟩)
  else context.extractPayload env objectId filePath

/-- `DELETE/asset`. The refusal says PUT, as in the source. -/
def delete (env : AssetEnv) (objectId : Nat) (authz : Authorizer) (filePath : Text) :
    List FileAccess × ExceptionWithStatus :=
  if !mayUpload authz then ([], ⟨"Not authorized to PUT asset", .permissionDenied⟩)
  else if !env.fileExists filePath then
    ([], ⟨"file: " ++ String.ofList filePath ++ " not found", .notFound⟩)
  else if env.removes filePath then ([.remove filePath], ⟨"", .noContent⟩)
  else ([.remove filePath], ⟨"AssetRequest[" ++ toString objectId ++ "] failed to delete file: " ++
    String.ofList filePath, .internal⟩)

/-- `AssetRequest::proceed`: what it does to files, and the status it answers. `dms` are the slots
with a device. -/
def proceed (context : AssetContext) (env : AssetEnv) (dms : UInt32 → Bool) (EOPath : Text)
    (objectId : Nat) : List FileAccess × ExceptionWithStatus :=
  let filePath := EOPath ++ context.fqoid
  if 65535 < context.slot then ([], ⟨"slot number out of range", .invalidArgument⟩)
  else
    match context.token with
    | none => ([], ⟨"Invalid JWS Token", .unauthenticated⟩)
    | some authz =>
        if !dms context.slot then
          ([], ⟨"device not found in slot " ++ toString context.slot.toNat, .notFound⟩)
        else
          match context.method with
          | .get => context.download env objectId authz filePath
          | .post => context.create env objectId authz filePath
          | .put => context.overwrite env objectId authz filePath
          | .delete => delete env objectId authz filePath
          | _ => ([], ⟨"Invalid method", .invalidArgument⟩)

end AssetContext

/-- The write phase of `ExternalObjectRequest`. It does not look whether the file opens: one that
does not has no bytes. -/
def externalObjectRequest (env : AssetEnv) (dms : UInt32 → Bool) (EOPath : Text) (slot : UInt32)
    (oid : Text) : List FileAccess × ExceptionWithStatus :=
  let path := EOPath ++ oid
  if 65535 < slot then ([], ⟨"slot number out of range", .invalidArgument⟩)
  else if !dms slot then ([], ⟨"Device not found in slot " ++ toString slot.toNat, .notFound⟩)
  else if !env.fileExists path then
    let why := "virtual void catena::gRPC::ExternalObjectRequest::proceed(bool)\nfile '" ++
      String.ofList oid ++ "' not found"
    if oid.head? ≠ some '/' then
      ([], ⟨why ++ ". HINT: Make sure oid starts with '/' prefix.", .notFound⟩)
    else ([], ⟨why, .notFound⟩)
  else if env.opens path ∧ (env.readError path).isSome then ([.read path], ⟨"", .cancelled⟩)
  else ([.read path], .ok)

open FilePath (normalize Stays inside_append_iff)

/-- Whatever the method, the authorizer, the devices and the file system are, a request for this
target that is routed to `AssetRequest` only touches files inside the root. `urlPath` is the
decoded path of a URL, `none` if the URL is refused. -/
def AssetsInside (urlPath : Text → Option Text) (version EOPath target : Text) : Prop :=
  ∀ path reader, urlPath target = some path → SocketReader.readUrl version path = some reader →
    reader.endpoint = "/asset".toList → ∀ method compression token env dms objectId,
      ∀ access ∈ (AssetContext.proceed ⟨method, reader.slot, reader.fqoid, compression, token⟩ env dms
        EOPath objectId).1, (normalize EOPath).Inside (normalize access.path)

/-- An `ExternalObjectRequest` only reads files inside the root. -/
def ObjectsInside (EOPath : Text) (slot : UInt32) (oid : Text) : Prop :=
  ∀ env dms, ∀ access ∈ (externalObjectRequest env dms EOPath slot oid).1,
    (normalize EOPath).Inside (normalize access.path)

namespace AssetContext

variable {context : AssetContext} {env : AssetEnv} {objectId : Nat} {authz : Authorizer}
  {path : Text} {access : FileAccess}

theorem path_of_mem_extractPayload (h : access ∈ (context.extractPayload env objectId path).1) :
    access.path = path := by
  rw [extractPayload] at h
  split at h
  · cases h
  · split at h
    · rw [List.mem_singleton.mp h]
      rfl
    · rw [List.mem_singleton.mp h]
      rfl

theorem path_of_mem_download (h : access ∈ (context.download env objectId authz path).1) :
    access.path = path := by
  rw [download] at h
  split at h
  · cases h
  · split at h
    · cases h
    · split at h
      · rw [List.mem_singleton.mp h]
        rfl
      · split at h
        · rw [List.mem_singleton.mp h]
          rfl
        · rw [List.mem_singleton.mp h]
          rfl

theorem path_of_mem_create (h : access ∈ (context.create env objectId authz path).1) :
    access.path = path := by
  rw [create] at h
  split at h
  · cases h
  · split at h
    · cases h
    · exact path_of_mem_extractPayload h

theorem path_of_mem_overwrite (h : access ∈ (context.overwrite env objectId authz path).1) :
    access.path = path := by
  rw [overwrite] at h
  split at h
  · cases h
  · split at h
    · cases h
    · exact path_of_mem_extractPayload h

theorem path_of_mem_delete (h : access ∈ (delete env objectId authz path).1) :
    access.path = path := by
  rw [delete] at h
  split at h
  · cases h
  · split at h
    · cases h
    · split at h
      · rw [List.mem_singleton.mp h]
        rfl
      · rw [List.mem_singleton.mp h]
        rfl

theorem path_of_mem_proceed {dms : UInt32 → Bool} {EOPath : Text}
    (h : access ∈ (context.proceed env dms EOPath objectId).1) :
    access.path = EOPath ++ context.fqoid ∧ context.slot ≤ 65535 := by
  rw [proceed] at h
  split at h
  · cases h
  · rename_i hslot
    refine ⟨?_, by simpa using hslot⟩
    split at h
    · cases h
    · split at h
      · cases h
      · split at h
        · exact path_of_mem_download h
        · exact path_of_mem_create h
        · exact path_of_mem_overwrite h
        · exact path_of_mem_delete h
        · cases h

end AssetContext

/-- Everything exists, opens and can be removed. -/
def permissiveEnv : AssetEnv where
  fileExists _ := true
  opens _ := true
  readError _ := none
  removes _ := true
  zlib := none

theorem proceed_permissive {slot : UInt32} (hslot : slot ≤ 65535) (fqoid EOPath : Text) :
    (AssetContext.proceed ⟨.get, slot, fqoid, "", some .kAuthzDisabled⟩ permissiveEnv
      (fun _ => true) EOPath 0).1 = [.read (EOPath ++ fqoid)] := by
  have hrange : ¬65535 < slot := by simpa using hslot
  rw [AssetContext.proceed, if_neg hrange]
  rfl

theorem assetsInside_iff (urlPath : Text → Option Text) (version EOPath target : Text) :
    AssetsInside urlPath version EOPath target ↔
      ∀ path reader, urlPath target = some path → SocketReader.readUrl version path = some reader →
        reader.endpoint = "/asset".toList → reader.slot ≤ 65535 → Stays EOPath reader.fqoid := by
  constructor
  · intro h path reader hpath hreader hendpoint hslot
    rw [← inside_append_iff]
    apply h path reader hpath hreader hendpoint .get "" (some .kAuthzDisabled) permissiveEnv
      (fun _ => true) 0 (.read (EOPath ++ reader.fqoid))
    rw [proceed_permissive hslot]
    exact List.mem_cons_self
  · intro h path reader hpath hreader hendpoint method compression token env dms objectId access hmem
    obtain ⟨haccess, hslot⟩ := AssetContext.path_of_mem_proceed hmem
    rw [haccess, inside_append_iff]
    exact h path reader hpath hreader hendpoint hslot

theorem objectsInside_iff (EOPath : Text) (slot : UInt32) (oid : Text) :
    ObjectsInside EOPath slot oid ↔ (slot ≤ 65535 → Stays EOPath oid) := by
  rw [← inside_append_iff]
  constructor
  · intro h hslot
    have hrange : ¬65535 < slot := by simpa using hslot
    apply h permissiveEnv (fun _ => true) (.read (EOPath ++ oid))
    rw [externalObjectRequest, if_neg hrange]
    exact List.mem_cons_self
  · intro h env dms access hmem
    rw [externalObjectRequest] at hmem
    split at hmem
    · cases hmem
    · rename_i hrange
      split at hmem
      · cases hmem
      · split at hmem
        · split at hmem <;> cases hmem
        · split at hmem
          · rw [List.mem_singleton.mp hmem]
            exact h (by simpa using hrange)
          · rw [List.mem_singleton.mp hmem]
            exact h (by simpa using hrange)

/-- Requests stay inside the root exactly as long as the text they write after it does. -/
theorem assets_inside_iff_stays (urlPath : Text → Option Text) (version EOPath : Text) :
    (∀ target, AssetsInside urlPath version EOPath target ↔
      ∀ path reader, urlPath target = some path → SocketReader.readUrl version path = some reader →
        reader.endpoint = "/asset".toList → reader.slot ≤ 65535 → Stays EOPath reader.fqoid) ∧
    ∀ slot oid, ObjectsInside EOPath slot oid ↔ (slot ≤ 65535 → Stays EOPath oid) :=
  ⟨assetsInside_iff urlPath version EOPath, objectsInside_iff EOPath⟩

/-- A request climbs out of `/srv/static`, over REST and over gRPC, and an oid without a slash
names its neighbour. The URL has nothing to decode. -/
theorem assets_outside :
    ¬AssetsInside some "v1".toList "/srv/static".toList
        "/st2138-api/v1/0/asset/../secret".toList ∧
      ¬ObjectsInside "/srv/static".toList 0 "/../secret".toList ∧
      ¬ObjectsInside "/srv/static".toList 0 "-backup".toList := by
  refine ⟨?_, ?_, ?_⟩
  · intro h
    have hinside := h _ _ rfl rfl rfl .get "" (some .kAuthzDisabled) permissiveEnv (fun _ => true) 0
      (.read "/srv/static/../secret".toList) List.mem_cons_self
    exact absurd hinside.2.2 (by decide)
  · intro h
    have hinside := h permissiveEnv (fun _ => true) (.read "/srv/static/../secret".toList)
      List.mem_cons_self
    exact absurd hinside.2.2 (by decide)
  · intro h
    have hinside := h permissiveEnv (fun _ => true) (.read "/srv/static-backup".toList)
      List.mem_cons_self
    exact absurd hinside.2.2 (by decide)

end Catena.Rpc
