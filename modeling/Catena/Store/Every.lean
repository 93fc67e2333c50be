import Catena.Store.Descriptor

/-!
# Properties of every node of a value

`Every P` says that `P` holds at each node of a value: at the value itself, at each field and
element below it and at the alternative a variant holds. An element of an array is a node
under the descriptor of the array.
-/

namespace Catena.Store

/-- A property of a value at its place in the descriptor tree. -/
abbrev NodeProp : Type := (t : Ty) → ParamDescriptor → t.Val → Prop

mutual

def Ty.Every (P : NodeProp) : (t : Ty) → ParamDescriptor → t.Val → Prop
  | .empty type subParams, pd, v => P (.empty type subParams) pd v
  | .elem e, pd, v => e.Every P pd v
  | .vector e, pd, (v : List e.Val) => P (.vector e) pd v ∧ ∀ x ∈ v, e.Every P pd x

def ElemTy.Every (P : NodeProp) : (e : ElemTy) → ParamDescriptor → e.Val → Prop
  | .int32, pd, v => P (.elem .int32) pd v
  | .float, pd, v => P (.elem .float) pd v
  | .string, pd, v => P (.elem .string) pd v
  | .struct fields, pd, v => P (.elem (.struct fields)) pd v ∧ fields.Every P pd v
  | .variant name info ty alternatives, pd, v =>
      P (.elem (.variant name info ty alternatives)) pd v ∧
        match v with
        | .inl x => ty.Every P (pd.getSubParam info ty) x
        | .inr y => alternatives.EveryAlt P pd y

def Fields.Every (P : NodeProp) : (fields : Fields) → ParamDescriptor → fields.Vals → Prop
  | .nil, _, _ => True
  | .cons _ info ty rest, pd, (x, xs) =>
      ty.Every P (pd.getSubParam info ty) x ∧ rest.Every P pd xs

def Fields.EveryAlt (P : NodeProp) :
    (alternatives : Fields) → ParamDescriptor → alternatives.Alt → Prop
  | .nil, _, _ => True
  | .cons _ info ty rest, pd, v =>
      match v with
      | .inl x => ty.Every P (pd.getSubParam info ty) x
      | .inr y => rest.EveryAlt P pd y

end

end Catena.Store
