import Mathlib.Logic.Basic

/-!
# Loading a device model

`DeviceModel.load` reads the description of a device and replaces the imports in it by the files
they name. An imported file is walked relative to itself, and then again, as part of the file
that imports it, relative to that one. An import at the root of a param file is in no walk of
that file. So it stays, or is taken relative to the wrong file.
-/

namespace Catena.Codegen

variable {β U : Type}

mutual

/-- A description: the import, the sub-params and sub-commands, and everything else. -/
inductive Desc (β : Type) where
  | mk (body : β) (importUrl : Option String) (params commands : Descs β)

/-- The object under `params` or `commands`, which may be missing. -/
inductive Descs (β : Type) where
  | absent
  | object (entries : Entries β)

/-- The entries of such an object. -/
inductive Entries (β : Type) where
  | nil
  | cons (name : String) (param : Desc β) (rest : Entries β)

end

namespace Desc

def body : Desc β → β
  | mk body _ _ _ => body

def importUrl : Desc β → Option String
  | mk _ importUrl _ _ => importUrl

def params : Desc β → Descs β
  | mk _ _ params _ => params

def commands : Desc β → Descs β
  | mk _ _ _ commands => commands

end Desc

/-- An `Error`, by its message. -/
abbrev JsError : Type := String

/-- The validator, which reads and parses a file, and the URLs of the platform. -/
structure Env (β U : Type) where
  /-- `validator.validate`: it may throw, and gives no data if the file is not valid. -/
  validate : String → U → Except JsError (Option (Desc β))
  /-- The `URL` of the file name the model was constructed with. -/
  fileUrl : String → Except JsError U
  /-- `new URL(url, currentUrl)`. -/
  newUrl : String → U → Except JsError U
  href : U → String
  pathname : U → String

/-- `basename`. -/
def basename (path : String) : String :=
  let chars := path.toList.reverse.dropWhile (· = '/')
  String.ofList (chars.takeWhile (· ≠ '/')).reverse

/-- The text up to the first dot, `split(".")[0]`. -/
def upToDot (text : String) : String := String.ofList (text.toList.takeWhile (· ≠ '.'))

def MAX_RESOLVE_DEPTH : Nat := 100

section

variable (env : Env β U)

/-- `_load` with imports resolved, where `walk` is `_walk` one level deeper. -/
def loadWith (walk : Descs β → U → Except JsError (Descs β)) (schemaName : String) (url : U) :
    Except JsError (Desc β) := do
  match ← env.validate schemaName url with
  | none => .error ("Resource " ++ env.href url ++ " is invalid")
  | some data =>
      let params ← walk data.params url
      let commands ← walk data.commands url
      return .mk data.body data.importUrl params commands

/-- The param itself, or the file that it imports. -/
def importParam (walk : Descs β → U → Except JsError (Descs β)) (param : Desc β)
    (currentUrl : U) : Except JsError (Desc β) :=
  match param.importUrl with
  | none => .ok param
  | some ref => do
      let importUrl ← env.newUrl ref currentUrl
      if "param.".toList.isPrefixOf (basename (env.pathname importUrl)).toList then
        loadWith env walk "param" importUrl
      else .error ("Imported file " ++ ref ++ " is not a param file")

/-- One turn of the loop of `_walk`. -/
def walkParam (walk : Descs β → U → Except JsError (Descs β)) (param : Desc β) (currentUrl : U) :
    Except JsError (Desc β) := do
  let param ← importParam env walk param currentUrl
  let params ← walk param.params currentUrl
  let commands ← walk param.commands currentUrl
  return .mk param.body param.importUrl params commands

/-- The loop of `_walk`. -/
def walkEntries (walk : Descs β → U → Except JsError (Descs β)) :
    Entries β → U → Except JsError (Entries β)
  | .nil, _ => .ok .nil
  | .cons name param rest, currentUrl => do
      let param ← walkParam env walk param currentUrl
      let rest ← walkEntries walk rest currentUrl
      return .cons name param rest

/-- `_walk`, with the levels that are left until the maximum depth. -/
def walk : Nat → Descs β → U → Except JsError (Descs β)
  | _, .absent, _ => .ok .absent
  | 0, .object _, _ => .error "Maximum import depth exceeded"
  | levels + 1, .object entries, currentUrl => do
      let entries ← walkEntries env (walk levels) entries currentUrl
      return .object entries

/-- `DeviceModel.load(true)`: the description. -/
def load (url : String) : Except JsError (Desc β) :=
  let schemaName := upToDot (basename url)
  if schemaName ≠ "device" then
    .error ("File must be a device model, not " ++ schemaName)
  else do
    let url ← env.fileUrl url
    loadWith env (walk env MAX_RESOLVE_DEPTH) schemaName url

end

/-! ## What the description should be -/

mutual

/-- No param or command at any depth has an import. -/
def Descs.ImportFree : Descs β → Prop
  | .absent => True
  | .object entries => entries.ImportFree

def Entries.ImportFree : Entries β → Prop
  | .nil => True
  | .cons _ (.mk _ importUrl params commands) rest =>
      importUrl = none ∧ params.ImportFree ∧ commands.ImportFree ∧ rest.ImportFree

end

mutual

/-- A description in a file, and what it becomes when each import in it, at its root too, is
replaced by the file that it names relative to the file it is in. -/
inductive Expands (env : Env β U) : U → Desc β → Desc β → Prop
  | imported {url importUrl : U} {d data d' : Desc β} {ref : String}
      (hd : d.importUrl = some ref) (hurl : env.newUrl ref url = .ok importUrl)
      (hdata : env.validate "param" importUrl = .ok (some data))
      (hd' : Expands env importUrl data d') : Expands env url d d'
  | own {url : U} {d : Desc β} {params commands : Descs β} (hd : d.importUrl = none)
      (hparams : ExpandsAll env url d.params params)
      (hcommands : ExpandsAll env url d.commands commands) :
      Expands env url d (.mk d.body none params commands)

inductive ExpandsAll (env : Env β U) : U → Descs β → Descs β → Prop
  | absent {url : U} : ExpandsAll env url .absent .absent
  | object {url : U} {entries entries' : Entries β}
      (h : ExpandsEntries env url entries entries') :
      ExpandsAll env url (.object entries) (.object entries')

inductive ExpandsEntries (env : Env β U) : U → Entries β → Entries β → Prop
  | nil {url : U} : ExpandsEntries env url .nil .nil
  | cons {url : U} {name : String} {d d' : Desc β} {rest rest' : Entries β}
      (hd : Expands env url d d') (hrest : ExpandsEntries env url rest rest') :
      ExpandsEntries env url (.cons name d rest) (.cons name d' rest')

end

/-- The loaded description is the content of the device file with every import replaced, and
no import is left. -/
def Resolved (env : Env β U) (url : String) (desc : Desc β) : Prop :=
  ∃ deviceUrl data, env.fileUrl url = .ok deviceUrl ∧
    env.validate "device" deviceUrl = .ok (some data) ∧ desc.body = data.body ∧
    desc.importUrl = data.importUrl ∧ ExpandsAll env deviceUrl data.params desc.params ∧
    ExpandsAll env deviceUrl data.commands desc.commands ∧ desc.params.ImportFree ∧
    desc.commands.ImportFree

/-! ## The files that are loaded -/

mutual

/-- An import that a walk meets. What stands beside an import is never looked at. -/
inductive Mentions : Descs β → String → Prop
  | object {entries : Entries β} {ref : String} (h : MentionsEntry entries ref) :
      Mentions (.object entries) ref

inductive MentionsEntry : Entries β → String → Prop
  | here {name : String} {d : Desc β} {rest : Entries β} {ref : String}
      (h : d.importUrl = some ref) : MentionsEntry (.cons name d rest) ref
  | params {name : String} {d : Desc β} {rest : Entries β} {ref : String}
      (hd : d.importUrl = none) (h : Mentions d.params ref) :
      MentionsEntry (.cons name d rest) ref
  | commands {name : String} {d : Desc β} {rest : Entries β} {ref : String}
      (hd : d.importUrl = none) (h : Mentions d.commands ref) :
      MentionsEntry (.cons name d rest) ref
  | rest {name : String} {d : Desc β} {rest : Entries β} {ref : String}
      (h : MentionsEntry rest ref) : MentionsEntry (.cons name d rest) ref

end

/-- A file is imported in the params or commands of another. -/
def Imports (env : Env β U) (schemaName : String) (url importUrl : U) : Prop :=
  ∃ data ref, env.validate schemaName url = .ok (some data) ∧
    (Mentions data.params ref ∨ Mentions data.commands ref) ∧
    env.newUrl ref url = .ok importUrl

/-- Every import at the root of a file stands for another file, in the end for one that imports
nothing at its root. -/
inductive Denotes (env : Env β U) : U → U → Prop
  | plain {u : U} {data : Desc β} (hdata : env.validate "param" u = .ok (some data))
      (h : data.importUrl = none) : Denotes env u u
  | root {u u' v : U} {data : Desc β} {ref : String}
      (hdata : env.validate "param" u = .ok (some data)) (h : data.importUrl = some ref)
      (hurl : env.newUrl ref u = .ok u') (hv : Denotes env u' v) : Denotes env u v

/-- What the walks make of a file, which the first file of the stack imports. Each walk follows
one import at the root, relative to the file that it walks. The stack that is left is of the
files that are walked around the result. -/
inductive Reaches (env : Env β U) : List U → U → U → List U → Prop
  | plain {stack : List U} {u : U} {data : Desc β}
      (hdata : env.validate "param" u = .ok (some data)) (h : data.importUrl = none) :
      Reaches env stack u u stack
  | root {o o' u u' v : U} {around stack : List U} {data : Desc β} {ref : String}
      (hdata : env.validate "param" u = .ok (some data)) (h : data.importUrl = some ref)
      (hurl : env.newUrl ref o' = .ok u') (hv : Reaches env (o' :: around) u' v stack) :
      Reaches env (o :: o' :: around) u v stack

/-- The files that are imported below the root of another one, with the files around them,
the innermost first. -/
inductive Opens (env : Env β U) (deviceUrl : U) : List U → U → Prop
  | device {u : U} (h : Imports env "device" deviceUrl u) : Opens env deviceUrl [deviceUrl] u
  | param {stack stack' : List U} {u v u' : U} (hu : Opens env deviceUrl stack u)
      (hv : Reaches env stack u v stack') (h : Imports env "param" v u') :
      Opens env deviceUrl (v :: stack') u'

end Catena.Codegen
