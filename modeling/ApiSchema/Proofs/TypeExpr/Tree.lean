import ApiSchema.Proofs.TypeExpr.Canonical
import Mathlib.Logic.Function.Iterate

set_option autoImplicit false

namespace ApiSchema.TypeExpr

mutual

def nodes : TypeExpr → List TypeExpr
  | primitive source base format => [primitive source base format]
  | array source item => array source item :: item.nodes
  | object source name args => object source name args :: nodesAll args

def nodesAll : List TypeExpr → List TypeExpr
  | [] => []
  | first :: rest => first.nodes ++ nodesAll rest

end

mutual

def unsourced : TypeExpr → TypeExpr
  | primitive _ base format => primitive [] base format
  | array _ item => array [] item.unsourced
  | object _ name args => object [] name (unsourcedAll args)

def unsourcedAll : List TypeExpr → List TypeExpr
  | [] => []
  | first :: rest => first.unsourced :: unsourcedAll rest

end

mutual

/-- The type with all object types without arguments replaced at once, where `choose` has a type for
the name; the texts of the nodes around them stay. -/
def replaceNames (choose : Text → Option TypeExpr) : TypeExpr → TypeExpr
  | primitive source base format => primitive source base format
  | array source item => array source (item.replaceNames choose)
  | object source name [] => (choose name).getD (object source name [])
  | object source name (first :: rest) =>
    object source name (first.replaceNames choose :: replaceAllNames choose rest)

def replaceAllNames (choose : Text → Option TypeExpr) : List TypeExpr → List TypeExpr
  | [] => []
  | first :: rest => first.replaceNames choose :: replaceAllNames choose rest

end

theorem mem_nodesAll {node : TypeExpr} {args : List TypeExpr} :
    node ∈ nodesAll args ↔ ∃ arg ∈ args, node ∈ arg.nodes := by
  induction args with
  | nil => simp [nodesAll]
  | cons first rest ih => simp [nodesAll, ih]

@[simp] theorem unsourcedAll_eq_map (args : List TypeExpr) :
    unsourcedAll args = args.map unsourced := by
  induction args with
  | nil => rfl
  | cons first rest ih => simp [unsourcedAll, ih]

@[simp] theorem replaceAllNames_eq_map (choose : Text → Option TypeExpr) (args : List TypeExpr) :
    replaceAllNames choose args = args.map (replaceNames choose) := by
  induction args with
  | nil => rfl
  | cons first rest ih => simp [replaceAllNames, ih]

/-- The arguments of an object type that has some are replaced one by one. -/
theorem replaceNames_object (choose : Text → Option TypeExpr) (source name : Text)
    {args : List TypeExpr} (some_arg : args ≠ []) :
    (object source name args).replaceNames choose =
      object source name (args.map (replaceNames choose)) := by
  cases args with
  | nil => exact absurd rfl some_arg
  | cons first rest => simp [replaceNames]

mutual

/-- Where there is no choice nothing is replaced. -/
theorem replaceNames_none : (type : TypeExpr) → type.replaceNames (fun _ => none) = type
  | primitive _ _ _ => rfl
  | array source item => by rw [replaceNames, replaceNames_none item]
  | object _ _ [] => rfl
  | object source name (first :: rest) => by
      rw [replaceNames, replaceNames_none first, replaceAllNames_none rest]

theorem replaceAllNames_none : (args : List TypeExpr) → replaceAllNames (fun _ => none) args = args
  | [] => rfl
  | first :: rest => by rw [replaceAllNames, replaceNames_none first, replaceAllNames_none rest]

end

theorem object_mem_arrayType {core source name : Text} {item : TypeExpr} {gaps : List Text}
    {args : List TypeExpr} : object source name args ∈ (arrayType core item gaps).nodes ↔
      object source name args ∈ item.nodes := by
  induction gaps with
  | nil => rfl
  | cons gap gaps ih => simp [arrayType, nodes, ih]

theorem unsourced_arrayType (core : Text) (item : TypeExpr) (gaps : List Text) :
    (arrayType core item gaps).unsourced = (array [])^[gaps.length] item.unsourced := by
  induction gaps with
  | nil => rfl
  | cons gap gaps ih =>
      rw [arrayType, unsourced, ih, List.length_cons, Function.iterate_succ_apply']

theorem replaceNames_arrayType (choose : Text → Option TypeExpr) (core : Text) (item : TypeExpr)
    (gaps : List Text) :
    ((arrayType core item gaps).replaceNames choose).unsourced =
      (array [])^[gaps.length] (item.replaceNames choose).unsourced := by
  induction gaps with
  | nil => rfl
  | cons gap gaps ih =>
      rw [arrayType, replaceNames, unsourced, ih, List.length_cons, Function.iterate_succ_apply']

namespace Layout

theorem unsourced_type (layout : Layout) :
    layout.type.unsourced = (array [])^[layout.margins.gaps.length] layout.item.unsourced := by
  rw [type_eq, unsourced_arrayType]

theorem replaceNames_type (choose : Text → Option TypeExpr) (layout : Layout) :
    (layout.type.replaceNames choose).unsourced =
      (array [])^[layout.margins.gaps.length] (layout.item.replaceNames choose).unsourced := by
  rw [type_eq, replaceNames_arrayType]

theorem Valid.replaceNames_solid (choose : Text → Option TypeExpr) {layout : Layout}
    (valid : layout.Valid) :
    (layout.solid.type.replaceNames choose).unsourced =
      (layout.type.replaceNames choose).unsourced := by
  induction valid with
  | leaf =>
      rw [replaceNames_type, replaceNames_type, Layout.solid]
      simp [Layout.margins, Margins.plain, item]
  | @applied margins name args _ _ some_arg _ ih =>
      have same : args.map (fun arg => (arg.solid.type.replaceNames choose).unsourced) =
          args.map fun arg => (arg.type.replaceNames choose).unsourced := List.map_congr_left ih
      rw [replaceNames_type, replaceNames_type, Layout.solid, solidAll_eq_map, item, item,
        replaceNames_object choose _ _ (by simpa using some_arg),
        replaceNames_object choose _ _ (by simpa using some_arg)]
      simp [Layout.margins, Margins.plain, unsourced, Function.comp_def, same]

/-- Layouts that differ in blanks only stand for the same tree. -/
theorem unsourced_eq_of_solid {first second : Layout} (valid : first.Valid) (other : second.Valid)
    (same : first.solid = second.solid) : first.type.unsourced = second.type.unsourced := by
  have left := valid.replaceNames_solid fun _ => none
  have right := other.replaceNames_solid fun _ => none
  rw [replaceNames_none, replaceNames_none] at left right
  rw [← left, ← right, same]

end Layout

end ApiSchema.TypeExpr
