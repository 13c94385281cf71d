import NamingLint.Proofs.Concrete.Shape
import NamingLint.Proofs.Concrete.Trace

/-! Where the nodes of an outline come from.

The traces of a node are made as its outlines are, with the place of every node beside it, and
forgetting the places gives the outlines. -/

namespace NamingLint.Concrete

open Syntax (Modifiers)

mutual

def Node.bindingPlaces (here : Place) : Node → List (Place × Label)
  | .mk label parts =>
    if label.kind.isBinding then [(here, label)] else Node.bindingPlacesOf label.kind here 0 parts

def Node.bindingPlacesOf (kind : Kind) (above : Place) (index : Nat) :
    List Node → List (Place × Label)
  | [] => []
  | part :: parts =>
    if kind.binds part.label then
      Node.bindingPlaces (above ++ [index]) part ++
        (if kind.bindsOnce then [] else Node.bindingPlacesOf kind above (index + 1) parts)
    else Node.bindingPlacesOf kind above (index + 1) parts

end

def Node.declaredPlaces (above : Place) (index : Nat) : List Node → List (Place × Label)
  | [] => []
  | part :: parts =>
    if part.label.field == some .name then part.bindingPlaces (above ++ [index])
    else Node.declaredPlaces above (index + 1) parts

def Node.boundPlaces (above : Place) (index : Nat) : List Node → List (Place × Label)
  | [] => []
  | part :: parts =>
    (if part.label.isDeclarator then Node.declaredPlaces (above ++ [index]) 0 part.children else []) ++
      Node.boundPlaces above (index + 1) parts

def bindingTrace (bound : Place × Label) : Trace :=
  .node bound.1 bound.2 .variableDeclaration (some bound.2.span) .empty []

def Node.boundTraces (here : Place) (kind : Syntax.Kind) (parts : List Node) : List Trace :=
  if kind = .variableStatement then (Node.boundPlaces here 0 parts).map bindingTrace else []

mutual

/-- The traces of a node in a role. -/
def Node.traces (source : List Char) (role : Role) (here : Place) : Node → List Trace
  | .mk label parts =>
    match Shape.ofRole source label.kind parts role with
    | .nothing => []
    | .parts context => Node.tracesOf source context here 0 parts
    | .node kind nameSpan modifiers _ context =>
      [.node here label kind nameSpan modifiers
        (Node.boundTraces here kind parts ++ Node.tracesOf source context here 0 parts)]

def Node.tracesOf (source : List Char) (context : Context) (above : Place) (index : Nat) :
    List Node → List Trace
  | [] => []
  | part :: parts =>
    (match context.role? part.label with
      | some role => Node.traces source role (above ++ [index]) part
      | none => []) ++ Node.tracesOf source (context.next part.label) above (index + 1) parts

end

section Forget

mutual

theorem Node.bindingPlaces_labels (here : Place) :
    (pattern : Node) → (pattern.bindingPlaces here).map Prod.snd = pattern.bindings
  | .mk label parts => by
      unfold Node.bindingPlaces Node.bindings
      split
      · rfl
      · exact Node.bindingPlacesOf_labels label.kind here 0 parts

theorem Node.bindingPlacesOf_labels (kind : Kind) (above : Place) (index : Nat) :
    (parts : List Node) →
      (Node.bindingPlacesOf kind above index parts).map Prod.snd = Node.bindingsOf kind parts
  | [] => rfl
  | part :: parts => by
      have others := Node.bindingPlacesOf_labels kind above (index + 1) parts
      rw [Node.bindingPlacesOf, Node.bindingsOf]
      split
      · rw [List.map_append, Node.bindingPlaces_labels (above ++ [index]) part]
        split
        · rfl
        · rw [others]
      · exact others

end

theorem Node.declaredPlaces_labels (above : Place) (index : Nat) (parts : List Node) :
    (Node.declaredPlaces above index parts).map Prod.snd =
      ((Node.field? .name parts).map Node.bindings).getD [] := by
  induction parts generalizing index with
  | nil => rfl
  | cons part parts ih =>
      unfold Node.declaredPlaces
      split
      · rename_i isName
        simp [Node.field?, isName, Node.bindingPlaces_labels]
      · rename_i other
        simpa [Node.field?, List.find?_cons, other] using ih (index + 1)

theorem Node.boundPlaces_labels (above : Place) (index : Nat) (parts : List Node) :
    (Node.boundPlaces above index parts).map Prod.snd = boundNames parts := by
  induction parts generalizing index with
  | nil => rfl
  | cons part parts ih =>
      rw [Node.boundPlaces, List.map_append, ih (index + 1)]
      split
      · rename_i declares
        simp [boundNames, declares, Node.declaredPlaces_labels]
      · rename_i other
        simp [boundNames, other]

theorem outlines_bindingTrace (bound : List (Place × Label)) :
    Trace.outlines (bound.map bindingTrace) = (bound.map Prod.snd).map bindingOutline := by
  induction bound with
  | nil => rfl
  | cons name bound ih => simp only [List.map_cons, Trace.outlines, ih]; rfl

theorem Node.boundTraces_outlines {source : List Char} {parts : List Node} {role : Role}
    {kind : Kind} {made : Syntax.Kind} {nameSpan : Option Span} {mods : Modifiers}
    {bound : List Label} {context : Context}
    (becomes : Becomes source parts role kind made nameSpan mods bound context) (here : Place) :
    Trace.outlines (Node.boundTraces here made parts) = bound.map bindingOutline := by
  cases becomes with
  | variableStatement _ declares =>
      rw [Node.boundTraces, if_pos rfl, outlines_bindingTrace, Node.boundPlaces_labels]
  | type _ _ declares => cases declares <;> rfl
  | _ => rfl

mutual

/-- Forgetting the places of a trace gives the outline. -/
theorem Node.traces_outlines (source : List Char) (role : Role) (here : Place) :
    (n : Node) → Trace.outlines (n.traces source role here) = n.outlines source role
  | .mk label parts => by
      rw [Node.traces, Node.outlines]
      cases shape : Shape.ofRole source label.kind parts role with
      | nothing => rfl
      | parts context => exact Node.tracesOf_outlines source context here 0 parts
      | node kind nameSpan modifiers bound context =>
          simp only [Trace.outlines, Trace.outline, Trace.outlines_append,
            Node.boundTraces_outlines (Shape.ofRole_becomes shape),
            Node.tracesOf_outlines source context here 0 parts]

theorem Node.tracesOf_outlines (source : List Char) (context : Context) (above : Place)
    (index : Nat) : (parts : List Node) →
      Trace.outlines (Node.tracesOf source context above index parts) =
        Node.outlinesOf source context parts
  | [] => rfl
  | part :: parts => by
      rw [Node.tracesOf, Node.outlinesOf, Trace.outlines_append,
        Node.tracesOf_outlines source (context.next part.label) above (index + 1) parts]
      cases context.role? part.label with
      | none => rfl
      | some role => rw [Node.traces_outlines source role (above ++ [index]) part]

end

end Forget

section Members

structure Kind.Opens (kind : Kind) (parts : List Node) (i : Nat) (part : Node) : Prop where
  child : parts[i]? = some part
  binds : kind.binds part.label = true
  first : kind.bindsOnce = true → ∀ other ∈ parts.take i, kind.binds other.label = false

theorem Kind.opens_cons_succ {kind : Kind} {first part : Node} {parts : List Node} {i : Nat} :
    kind.Opens (first :: parts) (i + 1) part ↔
      (kind.bindsOnce = true → kind.binds first.label = false) ∧ kind.Opens parts i part := by
  constructor
  · intro opens
    have earlier := opens.first
    rw [List.take_succ_cons] at earlier
    exact ⟨fun once => earlier once first List.mem_cons_self, opens.child, opens.binds,
      fun once other member => earlier once other (List.mem_cons_of_mem _ member)⟩
  · rintro ⟨closed, child, binds, earlier⟩
    refine ⟨child, binds, fun once => ?_⟩
    rw [List.take_succ_cons]
    exact List.forall_mem_cons.mpr ⟨closed once, earlier once⟩

theorem Kind.opens_cons_zero {kind : Kind} {first part : Node} {parts : List Node} :
    kind.Opens (first :: parts) 0 part ↔ part = first ∧ kind.binds first.label = true := by
  constructor
  · intro opens
    cases opens.child
    exact ⟨rfl, opens.binds⟩
  · rintro ⟨rfl, binds⟩
    exact ⟨rfl, binds, fun _ other member => by simp at member⟩

-- Each of the following splits the index of a part into 0, the first part, and a successor.
theorem Node.mem_bindingPlacesOf {kind : Kind} {above : Place} {index : Nat} {parts : List Node}
    {bound : Place × Label} :
    bound ∈ Node.bindingPlacesOf kind above index parts ↔
      ∃ (i : Nat) (part : Node), kind.Opens parts i part ∧
        bound ∈ part.bindingPlaces (above ++ [index + i]) := by
  induction parts generalizing index with
  | nil =>
      constructor
      · intro member
        cases member
      · rintro ⟨i, part, opens, _⟩
        cases opens.child
  | cons first parts ih =>
      rw [Node.bindingPlacesOf, ← Nat.or_exists_add_one]
      simp only [Kind.opens_cons_zero, Kind.opens_cons_succ, and_assoc, exists_eq_left]
      cases binds : kind.binds first.label with
      | false => simp [ih, Nat.add_assoc, Nat.add_comm 1]
      | true =>
          cases once : kind.bindsOnce with
          | false => simp [ih, Nat.add_assoc, Nat.add_comm 1]
          | true => simp

theorem Node.mem_declaredPlaces {above : Place} {index : Nat} {parts : List Node}
    {bound : Place × Label} :
    bound ∈ Node.declaredPlaces above index parts ↔
      ∃ (i : Nat) (part : Node), Node.fieldAt? .name parts = some i ∧ parts[i]? = some part ∧
        bound ∈ part.bindingPlaces (above ++ [index + i]) := by
  induction parts generalizing index with
  | nil => simp [Node.declaredPlaces, Node.fieldAt?]
  | cons part parts ih =>
      rw [Node.declaredPlaces]
      by_cases isName : part.label.field = some .name
      · simp [isName, Node.fieldAt?_cons_of_field isName]
      · rw [if_neg (by simpa using isName), Node.fieldAt?_cons_of_other isName,
          ← Nat.or_exists_add_one, ih]
        simp [Nat.add_assoc, Nat.add_comm 1]

theorem Node.mem_boundPlaces {above : Place} {index : Nat} {parts : List Node}
    {bound : Place × Label} :
    bound ∈ Node.boundPlaces above index parts ↔
      ∃ (i : Nat) (declarator : Node), parts[i]? = some declarator ∧
        declarator.label.isDeclarator = true ∧
        bound ∈ Node.declaredPlaces (above ++ [index + i]) 0 declarator.children := by
  induction parts generalizing index with
  | nil => simp [Node.boundPlaces]
  | cons part parts ih =>
      rw [Node.boundPlaces, List.mem_append, ← Nat.or_exists_add_one, ih]
      apply or_congr
      · split <;> simp [*]
      · simp [Nat.add_assoc, Nat.add_comm 1]

theorem Node.mem_allOf_tracesOf {source : List Char} {context : Context} {above : Place}
    {index : Nat} {parts : List Node} {inner : Trace} :
    inner ∈ Trace.allOf (Node.tracesOf source context above index parts) ↔
      ∃ (i : Nat) (part : Node) (role : Role), parts[i]? = some part ∧
        context.roleOf? parts i = some role ∧
        inner ∈ Trace.allOf (part.traces source role (above ++ [index + i])) := by
  induction parts generalizing index context with
  | nil => simp [Node.tracesOf, Trace.allOf]
  | cons part parts ih =>
      rw [Node.tracesOf, Trace.allOf_append, List.mem_append, ← Nat.or_exists_add_one, ih]
      apply or_congr
      · have here : context.roleOf? (part :: parts) 0 = context.role? part.label := rfl
        cases taken : context.role? part.label <;> simp [here, taken, Trace.allOf]
      · have further (i : Nat) : context.roleOf? (part :: parts) (i + 1) =
            (context.next part.label).roleOf? parts i := rfl
        simp [further, Nat.add_assoc, Nat.add_comm 1]

end Members

end NamingLint.Concrete
