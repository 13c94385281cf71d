import NamingLint.Concrete.Outline

/-! What a concrete node can become, and in which roles its parts are outlined. -/

namespace NamingLint.Concrete

open Syntax (Modifiers)

inductive DeclaresType : Kind → Syntax.Kind → Prop
  | classType : DeclaresType .classDeclaration .classDeclaration
  | abstractClassType : DeclaresType .abstractClassDeclaration .classDeclaration
  | interfaceType : DeclaresType .interfaceDeclaration .interfaceDeclaration
  | enumType : DeclaresType .enumDeclaration .enumDeclaration

inductive DeclaresMethod : Role → Kind → Prop
  | definition : DeclaresMethod .statement .methodDefinition
  | abstractSignature : DeclaresMethod .statement .abstractMethodSignature
  | signature (kind : Kind) : DeclaresMethod .method kind

theorem DeclaresMethod.ne_block {role : Role} {kind : Kind} (declares : DeclaresMethod role kind) :
    role ≠ .block := by
  cases declares <;> exact Role.noConfusion

def Kind.isModule (kind : Kind) : Bool := kind == .moduleNode || kind == .internalModule

theorem Kind.isModule_iff {kind : Kind} :
    kind.isModule = true ↔ kind = .moduleNode ∨ kind = .internalModule := by
  simp only [Kind.isModule, Bool.or_eq_true, beq_iff_eq]

theorem Kind.isVariables_iff {kind : Kind} :
    kind.isVariables = true ↔ kind = .lexicalDeclaration ∨ kind = .variableDeclaration := by
  simp only [Kind.isVariables, Bool.or_eq_true, beq_iff_eq]

/-- The nodes of a tree that a concrete node with the given parts can become: the kind, the name, the
modifiers, the bound names and the context of the parts. -/
inductive Becomes (source : List Char) (parts : List Node) :
    Role → Kind → Syntax.Kind → Option Span → Modifiers → List Label → Context → Prop
  | block (kind : Kind) : Becomes source parts .block kind .moduleBlock none .empty [] .statements
  | plain (role : Role) (kind : Kind) (other : role ≠ .block) (part : Node) (member : part ∈ parts)
      (named : part.label.named = true) :
      Becomes source parts role kind .other none .empty [] .statements
  | loop : Becomes source parts .statement .forStatement .other none .empty [] .loopParts
  | type (kind : Kind) (declared : Syntax.Kind) (declares : DeclaresType kind declared) :
      Becomes source parts .statement kind declared ((nameField? parts).map Label.span) .empty []
        .statements
  | module (kind : Kind) (declares : kind.isModule = true) :
      Becomes source parts .statement kind .moduleDeclaration
        ((nameField? parts).map moduleNameSpan) .empty [] .moduleParts
  | global (token : Node) (member : token ∈ parts) (isGlobal : token.label.isToken .global = true) :
      Becomes source parts .statement .ambientDeclaration .moduleDeclaration
        (some token.label.span) .empty [] .globalParts
  | method (role : Role) (kind : Kind) (name : Label) (declares : DeclaresMethod role kind)
      (called : methodName? source parts = some name) :
      Becomes source parts role kind .methodDeclaration (some name.span) (modifiers source parts) []
        .statements
  | property (name : Label) (called : memberName? parts = some name) :
      Becomes source parts .statement .publicFieldDefinition .propertyDeclaration (some name.span)
        (modifiers source parts) [] .statements
  | variableStatement (kind : Kind) (declares : kind.isVariables = true) :
      Becomes source parts .statement kind .variableStatement none .empty (boundNames parts)
        .declarators

namespace Shape

variable {source : List Char} {parts : List Node} {kind : Kind} {role : Role}
  {made : Syntax.Kind} {nameSpan : Option Span} {mods : Modifiers} {bound : List Label}
  {context : Context}

theorem plain_becomes (other : role ≠ .block)
    (shape : plain parts = .node made nameSpan mods bound context) :
    Becomes source parts role kind made nameSpan mods bound context := by
  unfold plain at shape
  split at shape
  · rename_i named
    obtain ⟨part, member, holds⟩ := List.any_eq_true.mp named
    cases shape
    exact .plain role kind other part member holds
  · cases shape

theorem method_becomes (declares : DeclaresMethod role kind)
    (shape : method source parts = .node made nameSpan mods bound context) :
    Becomes source parts role kind made nameSpan mods bound context := by
  unfold method member at shape
  split at shape
  · rename_i name called
    cases shape
    exact .method role kind name declares called
  · exact plain_becomes declares.ne_block shape

theorem property_becomes
    (shape : member source .propertyDeclaration (memberName? parts) parts =
      .node made nameSpan mods bound context) :
    Becomes source parts .statement .publicFieldDefinition made nameSpan mods bound context := by
  unfold member at shape
  split at shape
  · rename_i name called
    cases shape
    exact .property name called
  · exact plain_becomes Role.noConfusion shape

theorem ambient_becomes (shape : ambient parts = .node made nameSpan mods bound context) :
    Becomes source parts .statement .ambientDeclaration made nameSpan mods bound context := by
  unfold ambient at shape
  split at shape
  · rename_i token found
    have isGlobal := List.find?_some found
    cases shape
    exact .global token (List.mem_of_find?_eq_some found) isGlobal
  · cases shape

theorem expression_becomes
    (shape : (if wrapsNamespace parts then .parts .statements else plain parts) =
      Shape.node made nameSpan mods bound context) :
    Becomes source parts .statement .expressionStatement made nameSpan mods bound context := by
  split at shape
  · cases shape
  · exact plain_becomes Role.noConfusion shape

theorem ofKind_becomes (shape : ofKind source parts kind = .node made nameSpan mods bound context) :
    Becomes source parts .statement kind made nameSpan mods bound context := by
  cases kind with
  | comment | exportStatement | classBody => cases shape
  | ambientDeclaration => exact ambient_becomes shape
  | expressionStatement => exact expression_becomes shape
  | moduleNode | internalModule => cases shape; exact .module _ rfl
  | classDeclaration => cases shape; exact .type _ _ .classType
  | abstractClassDeclaration => cases shape; exact .type _ _ .abstractClassType
  | interfaceDeclaration => cases shape; exact .type _ _ .interfaceType
  | enumDeclaration => cases shape; exact .type _ _ .enumType
  | methodDefinition => exact method_becomes .definition shape
  | abstractMethodSignature => exact method_becomes .abstractSignature shape
  | publicFieldDefinition => exact property_becomes shape
  | lexicalDeclaration | variableDeclaration => cases shape; exact .variableStatement _ rfl
  | forStatement => cases shape; exact .loop
  | _ => exact plain_becomes Role.noConfusion shape

theorem ofRole_becomes
    (shape : ofRole source kind parts role = .node made nameSpan mods bound context) :
    Becomes source parts role kind made nameSpan mods bound context := by
  cases role with
  | statement => exact ofKind_becomes shape
  | block => cases shape; exact .block kind
  | method => exact method_becomes (.signature kind) shape
  | transparent | declarator => cases shape

theorem ofKind_module (declares : kind.isModule = true) :
    ofKind source parts kind =
      .node .moduleDeclaration ((nameField? parts).map moduleNameSpan) .empty [] .moduleParts := by
  rcases Kind.isModule_iff.mp declares with rfl | rfl <;> rfl

theorem ambient_global {token : Node} (member : token ∈ parts)
    (isGlobal : token.label.isToken .global = true) :
    ∃ first : Node, ambient parts =
      .node .moduleDeclaration (some first.label.span) .empty [] .globalParts := by
  unfold ambient
  cases found : parts.find? fun part => part.label.isToken .global with
  | none => exact absurd isGlobal (List.find?_eq_none.mp found token member)
  | some first => exact ⟨first, rfl⟩

theorem ambient_of_no_global (noGlobal : ∀ token ∈ parts, token.label.isToken .global = false) :
    ambient parts = .parts .statements := by
  unfold ambient
  rw [List.find?_eq_none.mpr]
  intro token member
  rw [noGlobal token member]
  exact Bool.false_ne_true

def context? : Shape → Option Context
  | .nothing => none
  | .parts context => some context
  | .node _ _ _ _ context => some context

end Shape

/-- Which nodes have their parts outlined in which context. -/
inductive Surrounds (parts : List Node) : Role → Kind → Context → Prop
  | statements (role : Role) (kind : Kind) : Surrounds parts role kind .statements
  | moduleParts (kind : Kind) (declares : kind.isModule = true) :
      Surrounds parts .statement kind .moduleParts
  | globalParts (token : Node) (member : token ∈ parts)
      (isGlobal : token.label.isToken .global = true) :
      Surrounds parts .statement .ambientDeclaration .globalParts
  | classMembers : Surrounds parts .statement .classBody .classMembers
  | loopParts : Surrounds parts .statement .forStatement .loopParts
  | declarators (kind : Kind) (declares : kind.isVariables = true) :
      Surrounds parts .statement kind .declarators
  | initialValue (kind : Kind) : Surrounds parts .declarator kind .initialValue

namespace Surrounds

variable {parts : List Node} {role : Role} {kind : Kind}

theorem of_moduleParts (surrounds : Surrounds parts role kind .moduleParts) :
    role = .statement ∧ kind.isModule = true := by
  cases surrounds with
  | moduleParts _ declares => exact ⟨rfl, declares⟩

theorem of_globalParts (surrounds : Surrounds parts role kind .globalParts) :
    role = .statement ∧ kind = .ambientDeclaration ∧
      ∃ token ∈ parts, token.label.isToken .global = true := by
  cases surrounds with
  | globalParts token member isGlobal => exact ⟨rfl, rfl, token, member, isGlobal⟩

theorem of_loopParts (surrounds : Surrounds parts role kind .loopParts) :
    role = .statement ∧ kind = .forStatement := by
  cases surrounds with
  | loopParts => exact ⟨rfl, rfl⟩

theorem of_declarators (surrounds : Surrounds parts role kind .declarators) :
    role = .statement ∧ kind.isVariables = true := by
  cases surrounds with
  | declarators _ declares => exact ⟨rfl, declares⟩

theorem of_initialValue (surrounds : Surrounds parts role kind .initialValue) :
    role = .declarator := by
  cases surrounds with
  | initialValue => rfl

theorem ne_nothing {context : Context} (surrounds : Surrounds parts role kind context) :
    context ≠ .nothing := by
  cases surrounds <;> exact Context.noConfusion

end Surrounds

theorem nameField?_eq_some {parts : List Node} {name : Label} (called : nameField? parts = some name) :
    ∃ part ∈ parts, part.label = name ∧ part.label.field = some .name := by
  obtain ⟨part, found, label⟩ := Option.map_eq_some_iff.mp called
  have isName := List.find?_some found
  exact ⟨part, List.mem_of_find?_eq_some found, label, beq_iff_eq.mp isName⟩

theorem nameField?_isSome {parts : List Node}
    (named : ∃ part ∈ parts, part.label.field = some .name) : (nameField? parts).isSome = true := by
  obtain ⟨part, member, isName⟩ := named
  rw [nameField?, Option.isSome_map, Node.field?, List.find?_isSome]
  exact ⟨part, member, beq_iff_eq.mpr isName⟩

theorem memberName?_eq_some {parts : List Node} {name : Label}
    (called : memberName? parts = some name) : nameField? parts = some name :=
  (Option.filter_eq_some_iff.mp called).1

theorem methodName?_eq_some {source : List Char} {parts : List Node} {name : Label}
    (called : methodName? source parts = some name) : nameField? parts = some name := by
  unfold methodName? at called
  split at called
  · cases called
  · exact memberName?_eq_some (Option.filter_eq_some_iff.mp called).1

def Kind.needsName (kind : Kind) : Bool :=
  match kind with
  | .classDeclaration | .abstractClassDeclaration | .interfaceDeclaration | .enumDeclaration
  | .moduleNode | .internalModule => true
  | _ => false

theorem DeclaresType.needsName {kind : Kind} {made : Syntax.Kind}
    (declares : DeclaresType kind made) : kind.needsName = true := by
  cases declares <;> rfl

theorem Kind.needsName_of_isModule {kind : Kind} (declares : kind.isModule = true) :
    kind.needsName = true := by
  rcases Kind.isModule_iff.mp declares with rfl | rfl <;> rfl

namespace Becomes

variable {source : List Char} {parts : List Node} {role : Role} {kind : Kind}
  {made : Syntax.Kind} {nameSpan : Option Span} {mods : Modifiers} {bound : List Label}
  {context : Context}

theorem ne_sourceFile (becomes : Becomes source parts role kind made nameSpan mods bound context) :
    made ≠ .sourceFile := by
  cases becomes with
  | type _ _ declares => cases declares <;> exact Syntax.Kind.noConfusion
  | _ => exact Syntax.Kind.noConfusion

theorem ne_variableDeclaration
    (becomes : Becomes source parts role kind made nameSpan mods bound context) :
    made ≠ .variableDeclaration := by
  cases becomes with
  | type _ _ declares => cases declares <;> exact Syntax.Kind.noConfusion
  | _ => exact Syntax.Kind.noConfusion

theorem moduleBlock_iff
    (becomes : Becomes source parts role kind made nameSpan mods bound context) :
    made = .moduleBlock ↔ role = .block := by
  cases becomes with
  | block => simp
  | plain _ _ other => simp [other]
  | method _ _ _ declares => simp [declares.ne_block]
  | type _ _ declares => cases declares <;> simp
  | _ => simp

theorem of_variableStatement
    (becomes : Becomes source parts role kind made nameSpan mods bound context)
    (isStatement : made = .variableStatement) :
    role = .statement ∧ kind.isVariables = true ∧ context = .declarators := by
  cases becomes with
  | variableStatement _ declares => exact ⟨rfl, declares, rfl⟩
  | type _ _ declares => cases declares <;> cases isStatement
  | _ => cases isStatement

theorem of_moduleDeclaration
    (becomes : Becomes source parts role kind made nameSpan mods bound context)
    (isModule : made = .moduleDeclaration) :
    (kind.isModule = true ∧ context = .moduleParts) ∨
      (kind = .ambientDeclaration ∧ context = .globalParts) := by
  cases becomes with
  | module _ declares => exact Or.inl ⟨declares, rfl⟩
  | global => exact Or.inr ⟨rfl, rfl⟩
  | type _ _ declares => cases declares <;> cases isModule
  | _ => cases isModule

theorem nameSpan_cases
    (becomes : Becomes source parts role kind made nameSpan mods bound context) :
    (nameSpan = none ∧ made.requiresName = false) ∨
    (kind.isModule = true ∧ nameSpan = (nameField? parts).map moduleNameSpan) ∨
    (kind.needsName = true ∧ nameSpan = (nameField? parts).map Label.span) ∨
    ∃ part ∈ parts, nameSpan = some part.label.span := by
  cases becomes with
  | block | plain | loop | variableStatement => exact Or.inl ⟨rfl, rfl⟩
  | module _ declares => exact Or.inr (Or.inl ⟨declares, rfl⟩)
  | type _ _ declares => exact Or.inr (Or.inr (Or.inl ⟨declares.needsName, rfl⟩))
  | global token member => exact Or.inr (Or.inr (Or.inr ⟨token, member, rfl⟩))
  | method _ _ name _ called =>
      obtain ⟨part, member, rfl, _⟩ := nameField?_eq_some (methodName?_eq_some called)
      exact Or.inr (Or.inr (Or.inr ⟨part, member, rfl⟩))
  | property name called =>
      obtain ⟨part, member, rfl, _⟩ := nameField?_eq_some (memberName?_eq_some called)
      exact Or.inr (Or.inr (Or.inr ⟨part, member, rfl⟩))

theorem surrounds (becomes : Becomes source parts role kind made nameSpan mods bound context) :
    Surrounds parts role kind context := by
  cases becomes with
  | module _ declares => exact .moduleParts _ declares
  | global token member isGlobal => exact .globalParts token member isGlobal
  | loop => exact .loopParts
  | variableStatement _ declares => exact .declarators _ declares
  | _ => exact .statements _ _

end Becomes

namespace Shape

theorem plain_parts {parts : List Node} {context : Context} :
    plain parts ≠ .parts context := by
  unfold plain
  split <;> exact Shape.noConfusion

theorem member_parts {source : List Char} {parts : List Node} {kind : Syntax.Kind}
    {name : Option Label} {context : Context} :
    member source kind name parts ≠ .parts context := by
  cases name with
  | none => exact plain_parts
  | some name => exact Shape.noConfusion

theorem ambient_parts {parts : List Node} {context : Context}
    (shape : ambient parts = .parts context) : context = .statements := by
  unfold ambient at shape
  split at shape <;> cases shape
  rfl

theorem expression_parts {parts : List Node} {context : Context}
    (shape : (if wrapsNamespace parts then .parts .statements else plain parts) =
      Shape.parts context) : context = .statements := by
  split at shape
  · cases shape
    rfl
  · exact absurd shape plain_parts

theorem ofKind_parts {source : List Char} {parts : List Node} {kind : Kind} {context : Context}
    (shape : ofKind source parts kind = .parts context) :
    Surrounds parts .statement kind context := by
  cases kind with
  | exportStatement => cases shape; exact .statements _ _
  | classBody => cases shape; exact .classMembers
  | ambientDeclaration => cases ambient_parts shape; exact .statements _ _
  | expressionStatement => cases expression_parts shape; exact .statements _ _
  | methodDefinition | abstractMethodSignature | publicFieldDefinition =>
      exact absurd shape member_parts
  | comment | moduleNode | internalModule | classDeclaration | abstractClassDeclaration
  | interfaceDeclaration | enumDeclaration | lexicalDeclaration | variableDeclaration
  | forStatement => cases shape
  | _ => exact absurd shape plain_parts

theorem ofRole_surrounds {source : List Char} {parts : List Node} {role : Role} {kind : Kind}
    {context : Context} (around : (ofRole source kind parts role).context? = some context) :
    Surrounds parts role kind context := by
  cases shape : ofRole source kind parts role with
  | nothing => rw [shape] at around; cases around
  | node made nameSpan mods bound inner =>
      rw [shape] at around
      cases around
      exact (ofRole_becomes shape).surrounds
  | parts inner =>
      rw [shape] at around
      cases around
      cases role with
      | statement => exact ofKind_parts shape
      | block => cases shape
      | method => exact absurd shape member_parts
      | transparent => cases shape; exact .statements _ _
      | declarator => cases shape; exact .initialValue kind

end Shape

/-- The number of the part that a field means, which is the first that has it. -/
def Node.fieldAt? (field : Field) (parts : List Node) : Option Nat :=
  parts.findIdx? fun part => part.label.field == some field

namespace Node

variable {field : Field} {part : Node} {parts : List Node} {i : Nat}

theorem fieldAt?_cons_of_field (isField : part.label.field = some field) :
    fieldAt? field (part :: parts) = some 0 := by
  simp [fieldAt?, List.findIdx?_cons, isField]

theorem fieldAt?_cons_of_other (other : part.label.field ≠ some field) :
    fieldAt? field (part :: parts) = (fieldAt? field parts).map (· + 1) := by
  simp [fieldAt?, List.findIdx?_cons, other]

theorem field_of_fieldAt? (first : fieldAt? field parts = some i) (found : parts[i]? = some part) :
    part.label.field = some field := by
  have holds := List.of_findIdx?_eq_some first
  rw [found] at holds
  exact beq_iff_eq.mp holds

theorem fieldAt?_eq_some_iff :
    fieldAt? field parts = some i ↔
      (∃ part, parts[i]? = some part ∧ part.label.field = some field) ∧
        ∀ other ∈ parts.take i, other.label.field ≠ some field := by
  induction parts generalizing i with
  | nil => simp [fieldAt?]
  | cons first parts ih =>
      by_cases isField : first.label.field = some field
      · rw [fieldAt?_cons_of_field isField]
        cases i with
        | zero => simp [isField]
        | succ i => simp [isField]
      · rw [fieldAt?_cons_of_other isField]
        cases i with
        | zero => simp [isField]
        | succ i => simp [ih, isField]

end Node

namespace Context

def after (context : Context) (parts : List Node) : Context :=
  parts.foldl (fun context part => context.next part.label) context

def roleOf? (context : Context) (parts : List Node) (i : Nat) : Option Role :=
  parts[i]?.bind fun part => (context.after (parts.take i)).role? part.label

variable {context : Context} {field : Field} {part : Node} {parts : List Node} {i : Nat} {role : Role}

theorem next_of_free (free : context.field? = none) (part : Label) : context.next part = context := by
  rw [next, free]

theorem next_of_field (asks : context.field? = some field) {part : Label}
    (isField : part.field = some field) : context.next part = context.behind := by
  rw [next, asks]
  exact if_pos isField

theorem next_of_other (asks : context.field? = some field) {part : Label}
    (other : part.field ≠ some field) : context.next part = context := by
  rw [next, asks]
  exact if_neg other

theorem field?_behind (context : Context) : context.behind.field? = none := by
  cases context <;> rfl

theorem after_of_free (free : context.field? = none) (parts : List Node) :
    context.after parts = context := by
  induction parts with
  | nil => rfl
  | cons part parts ih => rw [after, List.foldl_cons, next_of_free free, ← after, ih]

theorem after_take_of_first (asks : context.field? = some field)
    (first : Node.fieldAt? field parts = some i) : context.after (parts.take i) = context := by
  induction parts generalizing i with
  | nil => rw [List.take_nil]; rfl
  | cons part parts ih =>
      by_cases isField : part.label.field = some field
      · rw [Node.fieldAt?_cons_of_field isField, Option.some.injEq] at first
        rw [← first]
        rfl
      · rw [Node.fieldAt?_cons_of_other isField] at first
        obtain ⟨j, earlier, rfl⟩ := Option.map_eq_some_iff.mp first
        rw [List.take_succ_cons, after, List.foldl_cons, next_of_other asks isField, ← after,
          ih earlier]

/-- A context that has stayed as it is has not yet met the part that it asks for. -/
theorem first_of_after (asks : context.field? = some field)
    (stays : context.after (parts.take i) = context) (child : parts[i]? = some part)
    (isField : part.label.field = some field) : Node.fieldAt? field parts = some i := by
  induction parts generalizing i with
  | nil => simp at child
  | cons other parts ih =>
      cases i with
      | zero =>
          cases child
          exact Node.fieldAt?_cons_of_field isField
      | succ i =>
          rw [List.take_succ_cons, after, List.foldl_cons, ← after] at stays
          by_cases met : other.label.field = some field
          · rw [next_of_field asks met, after_of_free (field?_behind context)] at stays
            rw [← stays, field?_behind] at asks
            cases asks
          · rw [next_of_other asks met] at stays
            rw [Node.fieldAt?_cons_of_other met, ih stays child]
            rfl

theorem after_cases (context : Context) (parts : List Node) :
    context.after parts = context ∨ context.after parts = context.behind := by
  cases asks : context.field? with
  | none => exact Or.inl (after_of_free asks parts)
  | some field =>
      induction parts with
      | nil => exact Or.inl rfl
      | cons part parts ih =>
          rw [after, List.foldl_cons, ← after]
          by_cases isField : part.label.field = some field
          · rw [next_of_field asks isField, after_of_free (field?_behind context)]
            exact Or.inr rfl
          · rw [next_of_other asks isField]
            exact ih

theorem roleOf?_of_child (child : parts[i]? = some part) :
    context.roleOf? parts i = (context.after (parts.take i)).role? part.label := by
  rw [roleOf?, child, Option.bind_some]

theorem roleOf?_of_free (free : context.field? = none) (child : parts[i]? = some part) :
    context.roleOf? parts i = context.role? part.label := by
  rw [roleOf?_of_child child, after_of_free free]

theorem roleOf?_of_first (asks : context.field? = some field)
    (first : Node.fieldAt? field parts = some i) (child : parts[i]? = some part) :
    context.roleOf? parts i = context.role? part.label := by
  rw [roleOf?_of_child child, after_take_of_first asks first]

end Context

/-- The roles in which the parts of a node are outlined, context by context. -/
inductive Takes (parts : List Node) (i : Nat) (part : Label) : Context → Role → Prop
  | statement (context : Context) : Takes parts i part context .statement
  | body (named : part.named = true) (isBody : Node.fieldAt? .body parts = some i) :
      Takes parts i part .moduleParts .block
  | globalBlock (named : part.named = true) (isBlock : part.kind = .statementBlock) :
      Takes parts i part .globalParts .block
  | signature (named : part.named = true) (isSignature : part.kind = .methodSignature) :
      Takes parts i part .classMembers .method
  | loopVariables (named : part.named = true) (declares : part.kind.isVariables = true)
      (isInitializer : Node.fieldAt? .initializer parts = some i) :
      Takes parts i part .loopParts .transparent
  | declarator (declares : part.isDeclarator = true) : Takes parts i part .declarators .declarator

namespace Context

variable {context : Context} {part : Node} {parts : List Node} {i : Nat} {role : Role}

theorem role?_behind {part : Label} (taken : context.behind.role? part = some role) :
    role = .statement := by
  cases context with
  | initialValue => cases taken
  | _ =>
      simp only [behind, role?, namedRole, Option.ite_none_right_eq_some, Option.some.injEq] at taken
      exact taken.2.symm

theorem first_of_initialValue (child : parts[i]? = some part)
    (taken : initialValue.roleOf? parts i = some role) : Node.fieldAt? .value parts = some i := by
  rw [roleOf?_of_child child] at taken
  rcases initialValue.after_cases (parts.take i) with stays | moved
  · rw [stays] at taken
    simp only [role?, Option.ite_none_right_eq_some] at taken
    exact first_of_after rfl stays child taken.1
  · rw [moved] at taken
    cases taken

theorem takes_of_roleOf? (child : parts[i]? = some part)
    (taken : context.roleOf? parts i = some role) : Takes parts i part.label context role := by
  rw [roleOf?_of_child child] at taken
  rcases context.after_cases (parts.take i) with stays | moved
  · rw [stays] at taken
    cases context with
    | statements | initialValue =>
        simp only [role?, namedRole, Option.ite_none_right_eq_some, Option.some.injEq] at taken
        cases taken.2
        exact .statement _
    | nothing => cases taken
    | declarators =>
        simp only [role?, Option.ite_none_right_eq_some, Option.some.injEq] at taken
        cases taken.2
        exact .declarator taken.1
    | globalParts =>
        simp only [role?, namedRole, Option.ite_none_right_eq_some, Option.some.injEq] at taken
        obtain ⟨named, rfl⟩ := taken
        split
        · exact .globalBlock named ‹_›
        · exact .statement _
    | classMembers =>
        simp only [role?, namedRole, Option.ite_none_right_eq_some, Option.some.injEq] at taken
        obtain ⟨named, rfl⟩ := taken
        split
        · exact .signature named ‹_›
        · exact .statement _
    | moduleParts =>
        simp only [role?, namedRole, Option.ite_none_right_eq_some, Option.some.injEq] at taken
        obtain ⟨named, rfl⟩ := taken
        split
        · rename_i isBody
          exact .body named (first_of_after rfl stays child isBody)
        · exact .statement _
    | loopParts =>
        simp only [role?, namedRole, Bool.and_eq_true, beq_iff_eq, Option.ite_none_right_eq_some,
          Option.some.injEq] at taken
        obtain ⟨named, rfl⟩ := taken
        split
        · rename_i loop
          exact .loopVariables named loop.1 (first_of_after rfl stays child loop.2)
        · exact .statement _
  · rw [moved] at taken
    rw [role?_behind taken]
    exact .statement _

end Context

end NamingLint.Concrete
