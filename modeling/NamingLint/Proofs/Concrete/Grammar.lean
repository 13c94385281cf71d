import Mathlib.Data.List.Basic
import NamingLint.Proofs.Concrete.Visit

/-! What the grammar promises about a concrete tree, and what follows for the roles of its nodes. -/

namespace NamingLint.Concrete

def Kind.isComment (kind : Kind) : Bool := kind == .comment || kind == .other "html_comment"

/-- The trees that the grammar delivers: tokens and comments have no parts, the body of a module is a
statement block, and variables are declared by declarators. -/
structure Grammatical (root : Node) : Prop where
  program : root.label.kind = .other "program"
  leaves : root.Everywhere fun n =>
    n.label.named = false ∨ n.label.kind.isComment = true → n.children = []
  bodies : root.Everywhere fun n => n.label.kind.isModule = true → ∀ part ∈ n.children,
    part.label.field = some .body → part.label.kind = .statementBlock
  declarators : root.Everywhere fun n => n.label.kind.isVariables = true → ∀ part ∈ n.children,
    part.label.named = true →
    part.label.kind = .variableDeclarator ∨ part.label.kind.isComment = true

section Sample

def Node.inner (kind : Kind) (start stop : Nat) (field : Option Field) (children : List Node) : Node :=
  .mk ⟨kind, true, false, false, false, start, stop, field⟩ children

def Node.token (kind : String) (start stop : Nat) : Node :=
  .mk ⟨.ofName kind, false, false, false, false, start, stop, none⟩ []

def namespaceText : String := "namespace a { export let x = 1; }"

def namespaceProgram : Node :=
  .inner (.other "program") 0 33 none
    [.inner .expressionStatement 0 33 none
      [.inner .internalModule 0 33 none
        [.token "namespace" 0 9, .inner .identifier 10 11 (some .name) [],
          .inner .statementBlock 12 33 (some .body)
            [.token "\x7b" 12 13,
              .inner .exportStatement 14 31 none
                [.token "export" 14 20,
                  .inner .lexicalDeclaration 21 31 none
                    [.token "let" 21 24,
                      .inner .variableDeclarator 25 30 none
                        [.inner .identifier 25 26 (some .name) [], .token "=" 27 28,
                          .inner (.other "number") 29 30 (some .value) []],
                      .token ";" 30 31]],
              .token "\x7d" 32 33]]]]

theorem namespaceProgram_grammatical : Grammatical namespaceProgram where
  program := rfl
  leaves := by decide
  bodies := by decide
  declarators := by decide

end Sample

def Node.IsLoopInitializer (root : Node) (place : Place) : Prop :=
  ∃ above i outer part, place = above ++ [i] ∧ root.at? above = some outer ∧
    outer.label.kind = .forStatement ∧ outer.children[i]? = some part ∧
    Node.fieldAt? .initializer outer.children = some i

theorem Node.not_isLoopInitializer {root outer : Node} {above : Place} {i : Nat}
    (around : root.at? above = some outer) (noLoop : outer.label.kind ≠ .forStatement) :
    ¬ root.IsLoopInitializer (above ++ [i]) := by
  rintro ⟨above', i', outer', part, place, around', isLoop, _⟩
  obtain ⟨rfl, _⟩ := List.append_inj' place rfl
  rw [around, Option.some.injEq] at around'
  subst around'
  exact noLoop isLoop

def Kind.standsAlone : Kind → Bool
  | .statementBlock | .methodSignature | .variableDeclarator => false
  | .other name => name != "program"
  | _ => true

theorem Kind.standsAlone_of_isModule {kind : Kind} (isModule : kind.isModule = true) :
    kind.standsAlone = true ∧ kind.isVariables = false := by
  rcases Kind.isModule_iff.mp isModule with rfl | rfl <;> exact ⟨rfl, rfl⟩

/-- The roles that the nodes of a grammatical tree can have below the root. -/
inductive Grammatical.Cast (root : Node) (place : Place) (label : Label) : Role → Prop
  | statement : Cast root place label .statement
  | block (isBlock : label.kind = .statementBlock) : Cast root place label .block
  | signature (isSignature : label.kind = .methodSignature) : Cast root place label .method
  | loopVariables (declares : label.kind.isVariables = true)
      (initializes : root.IsLoopInitializer place) : Cast root place label .transparent
  | declarator (declares : label.isDeclarator = true) : Cast root place label .declarator

namespace Grammatical

variable {source : List Char} {root n : Node} {place : Place} {role : Role}

theorem cast (grammatical : Grammatical root) (inside : place ≠ [])
    (found : root.at? place = some n) (visited : root.role? source place = some role) :
    Cast root place n.label role := by
  obtain ⟨above, i, rfl⟩ : ∃ above i, place = above ++ [i] :=
    (List.eq_nil_or_concat' place).resolve_left inside
  obtain ⟨outer, around, child⟩ := Node.at?_child_inv found
  obtain ⟨outerRole, context, _, surrounds, taken⟩ := (Node.role?_child around child).mp visited
  have kinds := Shape.ofRole_surrounds surrounds
  cases Context.takes_of_roleOf? child taken with
  | statement => exact .statement
  | body named isBody =>
      exact .block (grammatical.bodies above outer around kinds.of_moduleParts.2 n
        (List.mem_of_getElem? child) (Node.field_of_fieldAt? isBody child))
  | globalBlock named isBlock => exact .block isBlock
  | signature named isSignature => exact .signature isSignature
  | declarator declares => exact .declarator declares
  | loopVariables named declares isInitializer =>
      exact .loopVariables declares
        ⟨above, i, outer, n, rfl, around, kinds.of_loopParts.2, child, isInitializer⟩

theorem inside_of_standsAlone (grammatical : Grammatical root) (found : root.at? place = some n)
    (alone : n.label.kind.standsAlone = true) : place ≠ [] := by
  rintro rfl
  rw [Node.at?_nil, Option.some.injEq] at found
  subst found
  rw [grammatical.program] at alone
  cases alone

theorem role_eq_statement (grammatical : Grammatical root) (found : root.at? place = some n)
    (visited : root.role? source place = some role) (alone : n.label.kind.standsAlone = true)
    (loop : n.label.kind.isVariables = true → ¬ root.IsLoopInitializer place) :
    role = .statement := by
  cases grammatical.cast (grammatical.inside_of_standsAlone found alone) found visited with
  | statement => rfl
  | block isBlock => rw [isBlock] at alone; cases alone
  | signature isSignature => rw [isSignature] at alone; cases alone
  | loopVariables declares initializes => exact absurd initializes (loop declares)
  | declarator declares =>
      simp only [Label.isDeclarator, Bool.and_eq_true, beq_iff_eq] at declares
      rw [declares.2] at alone
      cases alone

theorem role_eq_statement_of_kind (grammatical : Grammatical root)
    (found : root.at? place = some n) (visited : root.role? source place = some role)
    (alone : n.label.kind.standsAlone = true) (noVariables : n.label.kind.isVariables = false) :
    role = .statement := by
  refine grammatical.role_eq_statement found visited alone ?_
  intro declares
  rw [noVariables] at declares
  cases declares

end Grammatical

end NamingLint.Concrete
