import Catena.Framework.Tokens
import Catena.Go.ConnectionQueue
import Catena.Store.Descriptor

/-!
# Scopes of an access token

The scope claim of a token lists scopes separated by spaces; a scope with the suffix `:w` grants
writing. The C++ authorizer keeps the tokens as they are and appends the suffix when it is
asked; the Go SDK takes the suffix off and keeps the read and the write scopes apart.
-/

namespace Catena.Store

/-- The value of a claim in the payload of a token, as far as its kind is looked at. -/
inductive Claim where
  | text (claim : String)
  | other

/-- The scopes that the constructor of `Authorizer` inserts for the claim `scope`. -/
def Authorizer.scopesOf (scopeClaim : String) : List String :=
  (Framework.getlines ' ' [] scopeClaim.toList).map String.ofList

/-- `Authorizer::Authorizer` on the claim `scope` of a decoded token, if it has one. `get`
throws for a claim that is no string. -/
def Authorizer.ofClaim : Option Claim → Option Authorizer
  | none => some ⟨false, []⟩
  | some (.text scopeClaim) => some ⟨false, Authorizer.scopesOf scopeClaim⟩
  | some .other => none

end Catena.Store

namespace Catena.Go

open Catena.Store

/-- `strings.HasSuffix`. -/
def hasSuffix (s suffix : String) : Bool := suffix.toList.isSuffixOf s.toList

/-- `strings.TrimSuffix`. -/
def trimSuffix (s suffix : String) : String :=
  if hasSuffix s suffix then String.ofList (s.toList.take (s.toList.length - suffix.toList.length))
  else s

/-- The two sets of scope names that are built while the claim is read. -/
structure TokenScopes where
  readScopes : List String
  writeScopes : List String

namespace TokenScopes

def insertRead (scopes : TokenScopes) (scopeName : String) : TokenScopes :=
  { scopes with readScopes := scopeName :: scopes.readScopes }

def insertWrite (scopes : TokenScopes) (scopeName : String) : TokenScopes :=
  { scopes with writeScopes := scopeName :: scopes.writeScopes }

/-- The body of the loop of `extractTokenScopes`. -/
def addScope (scopes : TokenScopes) (scopeName : String) : TokenScopes :=
  if hasSuffix scopeName ":w" then
    (scopes.insertWrite (trimSuffix scopeName ":w")).insertRead (trimSuffix scopeName ":w")
  else scopes.insertRead scopeName

end TokenScopes

/-- `extractTokenScopes` on the claim `scope` of a token. A claim that is no string is read as
the empty string. -/
def extractTokenScopes : Option Claim → TokenScopes
  | none => ⟨[], []⟩
  | some claim =>
      let scopeString := match claim with
        | .text s => s
        | .other => ""
      ((Framework.fields Framework.isSpace [] scopeString.toList).map String.ofList).foldl
        TokenScopes.addScope ⟨[], []⟩

/-- `HandlerContext` with the write scopes as well, which the connection queue does not look
at. -/
structure ScopedContext extends HandlerContext where
  writeScopes : List String

/-- `resolveHandlerContext` for a token that was validated: the token is not looked at when
authorization is disabled. -/
def resolveHandlerContext (authzEnabled : Bool) (claim : Option Claim) : ScopedContext :=
  if !authzEnabled then { authzEnabled := false, readScopes := [], writeScopes := [] }
  else
    let scopes := extractTokenScopes claim
    { authzEnabled := true, readScopes := scopes.readScopes, writeScopes := scopes.writeScopes }

def ScopedContext.hasWriteScope (ctx : ScopedContext) (scopeName : String) : Bool :=
  !ctx.authzEnabled || ctx.writeScopes.contains scopeName

/-! ## Suffixes -/

theorem hasSuffix_iff {s suffix : String} : hasSuffix s suffix = true ↔ ∃ x, s = x ++ suffix := by
  rw [hasSuffix, List.isSuffixOf_iff_suffix]
  constructor
  · rintro ⟨x, hx⟩
    refine ⟨String.ofList x, ?_⟩
    apply String.toList_inj.mp
    rw [String.toList_append, String.toList_ofList, hx]
  · rintro ⟨x, rfl⟩
    rw [String.toList_append]
    exact List.suffix_append _ _

theorem trimSuffix_append (x suffix : String) : trimSuffix (x ++ suffix) suffix = x := by
  rw [trimSuffix, if_pos (hasSuffix_iff.mpr ⟨x, rfl⟩), String.toList_append, List.length_append,
    Nat.add_sub_cancel, List.take_left]
  exact String.ofList_toList

theorem append_right_inj {x y : String} (h : x ++ ":w" = y ++ ":w") : x = y := by
  rw [← trimSuffix_append x ":w", h, trimSuffix_append]

/-! ## The loop over the scope names -/

section loop

variable {x : String} (scopes : TokenScopes) (scopeNames : List String)

theorem mem_writeScopes_addScope (scopeName : String) :
    x ∈ (scopes.addScope scopeName).writeScopes ↔
      x ∈ scopes.writeScopes ∨ scopeName = x ++ ":w" := by
  unfold TokenScopes.addScope
  split
  · rename_i hsuffix
    obtain ⟨y, rfl⟩ := hasSuffix_iff.mp hsuffix
    rw [trimSuffix_append, TokenScopes.insertRead, TokenScopes.insertWrite, List.mem_cons]
    constructor
    · rintro (rfl | h)
      · exact Or.inr rfl
      · exact Or.inl h
    · rintro (h | h)
      · exact Or.inr h
      · exact Or.inl (append_right_inj h).symm
  · rename_i hsuffix
    have hne : scopeName ≠ x ++ ":w" := fun h => hsuffix (hasSuffix_iff.mpr ⟨x, h⟩)
    simp only [TokenScopes.insertRead, hne, or_false]

theorem mem_readScopes_addScope (scopeName : String) :
    x ∈ (scopes.addScope scopeName).readScopes ↔
      x ∈ scopes.readScopes ∨ (scopeName = x ∧ hasSuffix x ":w" = false) ∨
        scopeName = x ++ ":w" := by
  unfold TokenScopes.addScope
  split
  · rename_i hsuffix
    obtain ⟨y, rfl⟩ := hasSuffix_iff.mp hsuffix
    rw [trimSuffix_append, TokenScopes.insertRead, TokenScopes.insertWrite, List.mem_cons]
    constructor
    · rintro (rfl | h)
      · exact Or.inr (Or.inr rfl)
      · exact Or.inl h
    · rintro (h | ⟨rfl, h⟩ | h)
      · exact Or.inr h
      · rw [hsuffix] at h
        cases h
      · exact Or.inl (append_right_inj h).symm
  · rename_i hsuffix
    have hne : scopeName ≠ x ++ ":w" := fun h => hsuffix (hasSuffix_iff.mpr ⟨x, h⟩)
    rw [TokenScopes.insertRead, List.mem_cons]
    constructor
    · rintro (rfl | h)
      · exact Or.inr (Or.inl ⟨rfl, Bool.eq_false_iff.mpr hsuffix⟩)
      · exact Or.inl h
    · rintro (h | ⟨rfl, -⟩ | h)
      · exact Or.inr h
      · exact Or.inl rfl
      · exact absurd h hne

theorem mem_writeScopes_foldl :
    x ∈ (scopeNames.foldl TokenScopes.addScope scopes).writeScopes ↔
      x ∈ scopes.writeScopes ∨ x ++ ":w" ∈ scopeNames := by
  induction scopeNames generalizing scopes with
  | nil => simp
  | cons scopeName scopeNames ih =>
    rw [List.foldl_cons, ih, mem_writeScopes_addScope, List.mem_cons, or_assoc,
      @eq_comm _ scopeName]

theorem mem_readScopes_foldl :
    x ∈ (scopeNames.foldl TokenScopes.addScope scopes).readScopes ↔
      x ∈ scopes.readScopes ∨ (x ∈ scopeNames ∧ hasSuffix x ":w" = false) ∨
        x ++ ":w" ∈ scopeNames := by
  induction scopeNames generalizing scopes with
  | nil => simp
  | cons scopeName scopeNames ih =>
    rw [List.foldl_cons, ih, mem_readScopes_addScope, List.mem_cons, List.mem_cons,
      @eq_comm _ scopeName x, @eq_comm _ scopeName (x ++ ":w")]
    tauto

end loop

/-! ## The same rights on both sides -/

theorem mem_fields_iff {claim scope : String}
    (hclaim : ∀ c ∈ claim.toList, Framework.isSpace c = true → c = ' ') :
    scope ∈ (Framework.fields Framework.isSpace [] claim.toList).map String.ofList ↔
      scope ≠ "" ∧ scope ∈ Authorizer.scopesOf claim := by
  have htokens := Framework.mem_fields_iff_mem_getlines (by decide) hclaim scope.toList []
  have hmem : ∀ tokens : List (List Char),
      scope ∈ tokens.map String.ofList ↔ scope.toList ∈ tokens := by
    intro tokens
    rw [List.mem_map]
    constructor
    · rintro ⟨token, htoken, rfl⟩
      rwa [String.toList_ofList]
    · intro h
      exact ⟨scope.toList, h, String.ofList_toList⟩
  rw [Authorizer.scopesOf, hmem, hmem, htokens, Ne, String.toList_eq_nil_iff]

theorem append_suffix_ne_empty (scope : String) : scope ++ ":w" ≠ "" := by
  intro h
  have hlength := congrArg (fun s => s.toList.length) h
  simp at hlength

section agree

variable {claim scope : String}
  (hclaim : ∀ c ∈ claim.toList, Framework.isSpace c = true → c = ' ')

include hclaim

theorem hasWriteScope_iff :
    (resolveHandlerContext true (some (.text claim))).hasWriteScope scope = true ↔
      scope ++ ":w" ∈ Authorizer.scopesOf claim := by
  simp only [ScopedContext.hasWriteScope, resolveHandlerContext, extractTokenScopes,
    Bool.not_true, Bool.false_eq_true, if_false, Bool.false_or, List.contains_iff_mem]
  rw [mem_writeScopes_foldl, mem_fields_iff hclaim]
  simp only [List.not_mem_nil, false_or, append_suffix_ne_empty, ne_eq, not_false_eq_true,
    true_and]

theorem hasReadScope_iff (hscope : scope ≠ "") (hsuffix : hasSuffix scope ":w" = false) :
    (resolveHandlerContext true (some (.text claim))).hasReadScope scope = true ↔
      scope ∈ Authorizer.scopesOf claim ∨ scope ++ ":w" ∈ Authorizer.scopesOf claim := by
  simp only [HandlerContext.hasReadScope, resolveHandlerContext, extractTokenScopes,
    Bool.not_true, Bool.false_eq_true, if_false, Bool.false_or, List.contains_iff_mem]
  rw [mem_readScopes_foldl, mem_fields_iff hclaim, mem_fields_iff hclaim]
  simp only [List.not_mem_nil, false_or, append_suffix_ne_empty, ne_eq, not_false_eq_true,
    true_and, hscope, hsuffix, and_true]

end agree

/-- Whatever the claim is, a name that may be written may be read. -/
theorem hasReadScope_of_hasWriteScope {authzEnabled : Bool} {claim : Option Claim}
    {scope : String} (h : (resolveHandlerContext authzEnabled claim).hasWriteScope scope = true) :
    (resolveHandlerContext authzEnabled claim).hasReadScope scope = true := by
  cases authzEnabled with
  | false => rfl
  | true =>
    simp only [ScopedContext.hasWriteScope, HandlerContext.hasReadScope, resolveHandlerContext,
      Bool.not_true, Bool.false_eq_true, if_false, Bool.false_or, List.contains_iff_mem] at h ⊢
    cases claim with
    | none => exact h
    | some claim =>
      simp only [extractTokenScopes] at h ⊢
      rw [mem_writeScopes_foldl] at h
      rw [mem_readScopes_foldl]
      rcases h with h | h
      · exact Or.inl h
      · exact Or.inr (Or.inr h)

theorem readAuthzScope_of_writeAuthzScope {authz : Authorizer} {scope : String}
    (h : authz.writeAuthzScope scope = true) : authz.readAuthzScope scope = true := by
  rw [Authorizer.readAuthzScope, h, Bool.or_true]

/-- For a scope claim without other white space than the space, both grant the same rights for
every scope name that is not empty and has no suffix of its own. Writing implies reading, and
without authorization both grant everything. -/
theorem authorization_agrees (claim : String)
    (hclaim : ∀ c ∈ claim.toList, Framework.isSpace c = true → c = ' ')
    (scope : String) (hscope : scope ≠ "") (hsuffix : hasSuffix scope ":w" = false) :
    ∃ authz, Authorizer.ofClaim (some (.text claim)) = some authz ∧
      let ctx := resolveHandlerContext true (some (.text claim))
      (authz.readAuthzScope scope = ctx.hasReadScope scope) ∧
      (authz.writeAuthzScope scope = ctx.hasWriteScope scope) ∧
      (∀ s, authz.writeAuthzScope s = true → authz.readAuthzScope s = true) ∧
      (∀ s, ctx.hasWriteScope s = true → ctx.hasReadScope s = true) ∧
      ∀ s token, Authorizer.kAuthzDisabled.readAuthzScope s = true ∧
        Authorizer.kAuthzDisabled.writeAuthzScope s = true ∧
        (resolveHandlerContext false token).hasReadScope s = true ∧
        (resolveHandlerContext false token).hasWriteScope s = true := by
  refine ⟨_, rfl, ?_, ?_, ?_, ?_, ?_⟩
  · rw [Bool.eq_iff_iff, hasReadScope_iff hclaim hscope hsuffix]
    simp only [Authorizer.readAuthzScope, Authorizer.writeAuthzScope, Authorizer.hasAuthz,
      Bool.false_or, Bool.or_eq_true, List.contains_iff_mem]
  · rw [Bool.eq_iff_iff, hasWriteScope_iff hclaim]
    simp only [Authorizer.writeAuthzScope, Authorizer.hasAuthz, Bool.false_or,
      List.contains_iff_mem]
  · intro s h
    exact readAuthzScope_of_writeAuthzScope h
  · intro s h
    exact hasReadScope_of_hasWriteScope h
  · intro s token
    exact ⟨rfl, rfl, rfl, rfl⟩

theorem only_spaces {claim : String}
    (h : claim.toList.all (fun c => !Framework.isSpace c || c == ' ') = true) :
    ∀ c ∈ claim.toList, Framework.isSpace c = true → c = ' ' := by
  intro c hc hspace
  have hall := List.all_eq_true.mp h c hc
  rw [hspace] at hall
  simpa using hall

/-- A claim with doubled spaces and a doubled suffix. -/
theorem authorization_agrees_operate :
    (∀ c ∈ "st2138:op:w  st2138:mon st2138:cfg:w:w ".toList,
      Framework.isSpace c = true → c = ' ') ∧ "st2138:op" ≠ "" ∧
    hasSuffix "st2138:op" ":w" = false ∧
    ∃ authz, Authorizer.ofClaim (some (.text "st2138:op:w  st2138:mon st2138:cfg:w:w ")) =
        some authz ∧
      let ctx := resolveHandlerContext true
        (some (.text "st2138:op:w  st2138:mon st2138:cfg:w:w "))
      (authz.readAuthzScope "st2138:op" = ctx.hasReadScope "st2138:op") ∧
      (authz.writeAuthzScope "st2138:op" = ctx.hasWriteScope "st2138:op") ∧
      (∀ s, authz.writeAuthzScope s = true → authz.readAuthzScope s = true) ∧
      (∀ s, ctx.hasWriteScope s = true → ctx.hasReadScope s = true) ∧
      ∀ s token, Authorizer.kAuthzDisabled.readAuthzScope s = true ∧
        Authorizer.kAuthzDisabled.writeAuthzScope s = true ∧
        (resolveHandlerContext false token).hasReadScope s = true ∧
        (resolveHandlerContext false token).hasWriteScope s = true :=
  ⟨only_spaces (by decide), by decide, by decide,
    authorization_agrees "st2138:op:w  st2138:mon st2138:cfg:w:w " (only_spaces (by decide))
      "st2138:op" (by decide) (by decide)⟩

end Catena.Go
