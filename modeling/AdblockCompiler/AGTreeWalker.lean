import AdblockCompiler.JsText
import AdblockCompiler.TreeWalks

-- The walker over the syntax trees of filter lists.
namespace AdblockCompiler.AGTreeWalker
open JsText TreeWalks

inductive CosmeticRuleType where
  | ElementHidingRule | CssInjectionRule | ScriptletInjectionRule | HtmlFilteringRule | JsInjectionRule
  deriving DecidableEq, Repr

inductive LeafType where
  | Value | EmptyRule | InvalidRule | Domain | App | Method | StealthOption | Variable | ConfigNode
  deriving DecidableEq, Repr

-- The labels of the switch in walkChildren.
def caseLabels : List Text :=
  ["FilterList","NetworkRule","HostRule","ModifierList","Modifier","HostnameList","ElementHidingRule","CssInjectionRule",
    "ScriptletInjectionRule","HtmlFilteringRule","JsInjectionRule","DomainList","CommentRule","MetadataCommentRule",
    "ConfigCommentRule","PreProcessorCommentRule","AgentCommentRule","HintCommentRule","ElementHidingRuleBody",
    "CssInjectionRuleBody","ScriptletInjectionRuleBody","ParameterList","Hint","Agent","Operator","Parenthesis","Value",
    "EmptyRule","InvalidRule","Domain","App","Method","StealthOption","Variable","ConfigNode"].map String.toList

-- A node by its type, with the nodes it holds and what else a visitor can read
-- of it. A type without a label is that of any other node.
inductive Node (δ : Type) where
  | FilterList (data : δ) (children : List (Node δ))
  | NetworkRule (data : δ) (pattern : Node δ) (modifiers : Option (Node δ))
  | HostRule (data : δ) (ip hostnames : Node δ) (comment : Option (Node δ))
  | ModifierList (data : δ) (children : List (Node δ))
  | Modifier (data : δ) (name : Node δ) (value : Option (Node δ))
  | HostnameList (data : δ) (children : List (Node δ))
  | CosmeticRule (type : CosmeticRuleType) (data : δ) (domains : Node δ) (modifiers : Option (Node δ)) (separator : Node δ)
      (body : Option (Node δ))
  | DomainList (data : δ) (children : List (Node δ))
  | CommentRule (data : δ) (marker text : Node δ)
  | MetadataCommentRule (data : δ) (marker header value : Node δ)
  | ConfigCommentRule (data : δ) (marker command : Node δ) (params comment : Option (Node δ))
  | PreProcessorCommentRule (data : δ) (name : Node δ) (params : Option (Node δ))
  | AgentCommentRule (data : δ) (children : List (Node δ))
  | HintCommentRule (data : δ) (children : List (Node δ))
  | ElementHidingRuleBody (data : δ) (selectorList : Node δ)
  | CssInjectionRuleBody (data : δ) (mediaQueryList : Option (Node δ)) (selectorList : Node δ)
      (declarationList : Option (Node δ))
  | ScriptletInjectionRuleBody (data : δ) (children : List (Node δ))
  | ParameterList (data : δ) (children : List (Option (Node δ)))
  | Hint (data : δ) (name : Node δ) (params : Option (Node δ))
  | Agent (data : δ) (adblock : Node δ) (version : Option (Node δ))
  | Operator (data : δ) (left : Node δ) (right : Option (Node δ))
  | Parenthesis (data : δ) (expression : Node δ)
  | Leaf (type : LeafType) (data : δ)
  | Other (type : Text) (unlisted : type ∉ caseLabels) (data : δ)

variable {δ σ : Type}

def CosmeticRuleType.text : CosmeticRuleType → Text
  | .ElementHidingRule => "ElementHidingRule".toList
  | .CssInjectionRule => "CssInjectionRule".toList
  | .ScriptletInjectionRule => "ScriptletInjectionRule".toList
  | .HtmlFilteringRule => "HtmlFilteringRule".toList
  | .JsInjectionRule => "JsInjectionRule".toList

def LeafType.text : LeafType → Text
  | .Value => "Value".toList
  | .EmptyRule => "EmptyRule".toList
  | .InvalidRule => "InvalidRule".toList
  | .Domain => "Domain".toList
  | .App => "App".toList
  | .Method => "Method".toList
  | .StealthOption => "StealthOption".toList
  | .Variable => "Variable".toList
  | .ConfigNode => "ConfigNode".toList

def Node.type : Node δ → Text
  | .FilterList .. => "FilterList".toList
  | .NetworkRule .. => "NetworkRule".toList
  | .HostRule .. => "HostRule".toList
  | .ModifierList .. => "ModifierList".toList
  | .Modifier .. => "Modifier".toList
  | .HostnameList .. => "HostnameList".toList
  | .CosmeticRule type .. => type.text
  | .DomainList .. => "DomainList".toList
  | .CommentRule .. => "CommentRule".toList
  | .MetadataCommentRule .. => "MetadataCommentRule".toList
  | .ConfigCommentRule .. => "ConfigCommentRule".toList
  | .PreProcessorCommentRule .. => "PreProcessorCommentRule".toList
  | .AgentCommentRule .. => "AgentCommentRule".toList
  | .HintCommentRule .. => "HintCommentRule".toList
  | .ElementHidingRuleBody .. => "ElementHidingRuleBody".toList
  | .CssInjectionRuleBody .. => "CssInjectionRuleBody".toList
  | .ScriptletInjectionRuleBody .. => "ScriptletInjectionRuleBody".toList
  | .ParameterList .. => "ParameterList".toList
  | .Hint .. => "Hint".toList
  | .Agent .. => "Agent".toList
  | .Operator .. => "Operator".toList
  | .Parenthesis .. => "Parenthesis".toList
  | .Leaf type _ => type.text
  | .Other type .. => type

structure WalkContext (δ : Type) where
  parent : Option (Node δ)
  key : Option Text
  index : Option Nat
  depth : Nat

-- void or false
inductive Returned where
  | void | halt
  deriving DecidableEq, Repr

-- A visitor has a state of its own; one callback for all nodes, or a map from
-- types to callbacks.
abbrev NodeVisitor (δ σ : Type) := Node δ → WalkContext δ → σ → Returned × σ

inductive Visitor (δ σ : Type) where
  | callback (visit : NodeVisitor δ σ)
  | typed (map : Text → Option (NodeVisitor δ σ))

-- visit(node, ctx) !== false
def notFalse (visit : NodeVisitor δ σ) (node : Node δ) (ctx : WalkContext δ) : Step σ := fun s =>
  let returned := visit node ctx s
  (returned.1 ≠ .halt,returned.2)

def handlerOf (map : Text → Option (NodeVisitor δ σ)) (node : Node δ) : Option (NodeVisitor δ σ) :=
  (map node.type).or (map ['*'])

def dispatchTyped (node : Node δ) (map : Text → Option (NodeVisitor δ σ)) (ctx : WalkContext δ) : Step σ :=
  match handlerOf map node with
  | some handler => notFalse handler node ctx
  | none => goOn

def proceed (visitor : Visitor δ σ) (node : Node δ) (ctx : WalkContext δ) : Step σ :=
  match visitor with
  | .callback visit => notFalse visit node ctx
  | .typed map => dispatchTyped node map ctx

section Walk
variable (visitor : Visitor δ σ)

mutual

def visitNode (node : Node δ) (ctx : WalkContext δ) : Step σ :=
  andThen (proceed visitor node ctx) (walkChildren node (ctx.depth+1))
termination_by (sizeOf node,1)

def walkChildren (node : Node δ) (childDepth : Nat) : Step σ :=
  match node with
  | .FilterList _ children => every node childDepth children 0
  | .NetworkRule _ pattern modifiers =>
    andThen (req node childDepth pattern "pattern".toList none) (opt node childDepth modifiers "modifiers".toList none)
  | .HostRule _ ip hostnames comment =>
    andThen (req node childDepth ip "ip".toList none)
      (andThen (req node childDepth hostnames "hostnames".toList none) (opt node childDepth comment "comment".toList none))
  | .ModifierList _ children => every node childDepth children 0
  | .Modifier _ name value =>
    andThen (req node childDepth name "name".toList none) (opt node childDepth value "value".toList none)
  | .HostnameList _ children => every node childDepth children 0
  | .CosmeticRule _ _ domains modifiers separator body =>
    andThen (req node childDepth domains "domains".toList none)
      (andThen (opt node childDepth modifiers "modifiers".toList none)
        (andThen (req node childDepth separator "separator".toList none) (opt node childDepth body "body".toList none)))
  | .DomainList _ children => every node childDepth children 0
  | .CommentRule _ marker text =>
    andThen (req node childDepth marker "marker".toList none) (req node childDepth text "text".toList none)
  | .MetadataCommentRule _ marker header value =>
    andThen (req node childDepth marker "marker".toList none)
      (andThen (req node childDepth header "header".toList none) (req node childDepth value "value".toList none))
  | .ConfigCommentRule _ marker command params comment =>
    andThen (req node childDepth marker "marker".toList none)
      (andThen (req node childDepth command "command".toList none)
        (andThen (opt node childDepth params "params".toList none) (opt node childDepth comment "comment".toList none)))
  | .PreProcessorCommentRule _ name params =>
    andThen (req node childDepth name "name".toList none) (opt node childDepth params "params".toList none)
  | .AgentCommentRule _ children => every node childDepth children 0
  | .HintCommentRule _ children => every node childDepth children 0
  | .ElementHidingRuleBody _ selectorList => req node childDepth selectorList "selectorList".toList none
  | .CssInjectionRuleBody _ mediaQueryList selectorList declarationList =>
    andThen (opt node childDepth mediaQueryList "mediaQueryList".toList none)
      (andThen (req node childDepth selectorList "selectorList".toList none)
        (opt node childDepth declarationList "declarationList".toList none))
  | .ScriptletInjectionRuleBody _ children => every node childDepth children 0
  | .ParameterList _ children => everyParameter node childDepth children 0
  | .Hint _ name params =>
    andThen (req node childDepth name "name".toList none) (opt node childDepth params "params".toList none)
  | .Agent _ adblock version =>
    andThen (req node childDepth adblock "adblock".toList none) (opt node childDepth version "version".toList none)
  | .Operator _ left right =>
    andThen (req node childDepth left "left".toList none) (opt node childDepth right "right".toList none)
  | .Parenthesis _ expression => req node childDepth expression "expression".toList none
  | .Leaf .. => goOn
  | .Other .. => goOn
termination_by (sizeOf node,0)

def req (node : Node δ) (childDepth : Nat) (child : Node δ) (key : Text) (idx : Option Nat) : Step σ :=
  visitNode child ⟨some node,some key,idx,childDepth⟩
termination_by (sizeOf child,2)

def opt (node : Node δ) (childDepth : Nat) (child : Option (Node δ)) (key : Text) (idx : Option Nat) : Step σ :=
  match child with
  | some child => req node childDepth child key idx
  | none => goOn
termination_by (sizeOf child,0)

-- The loop over children, from the i-th on.
def every (node : Node δ) (childDepth : Nat) (children : List (Node δ)) (i : Nat) : Step σ :=
  match children with
  | [] => goOn
  | child :: rest => andThen (req node childDepth child "children".toList (some i)) (every node childDepth rest (i+1))
termination_by (sizeOf children,0)

def everyParameter (node : Node δ) (childDepth : Nat) (children : List (Option (Node δ))) (i : Nat) : Step σ :=
  match children with
  | [] => goOn
  | child :: rest => andThen (opt node childDepth child "children".toList (some i)) (everyParameter node childDepth rest (i+1))
termination_by (sizeOf children,0)

end

-- One tree, or an array of them.
inductive Root (δ : Type) where
  | one (node : Node δ)
  | many (nodes : List (Node δ))

def Root.nodes : Root δ → List (Node δ)
  | .one node => [node]
  | .many nodes => nodes

def walkFrom (count : Nat) : List (Node δ) → Nat → Step σ
  | [],_ => goOn
  | node :: rest,i => andThen (visitNode visitor node ⟨none,none,if 1 < count then some i else none,0⟩) (walkFrom count rest (i+1))

def walkAGTree (root : Root δ) (s : σ) : σ := (walkFrom visitor root.nodes.length root.nodes 0 s).2

end Walk

-- Where a node stands below another: under a property, or in the array that is
-- the property's value.
inductive Edge where
  | property (key : Text)
  | element (key : Text) (i : Nat)
  deriving DecidableEq, Repr

def Edge.key : Edge → Text
  | .property key => key
  | .element key _ => key

def Edge.index : Edge → Option Nat
  | .property _ => none
  | .element _ i => some i

section Structure

def named (rows : List (String × Option (Node δ))) : List (Edge × Option (Node δ)) :=
  rows.map fun row => (.property row.1.toList,row.2)

-- The elements of an array, numbered from the i-th on.
def elements (children : List (Option (Node δ))) (i : Nat) : List (Edge × Option (Node δ)) :=
  (children.zipIdx i).map fun child => (.element "children".toList child.2,child.1)

-- The properties that hold nodes, in the order of the walk.
def slots : Node δ → List (Edge × Option (Node δ))
  | .FilterList _ children => elements (children.map some) 0
  | .NetworkRule _ pattern modifiers => named [("pattern",some pattern),("modifiers",modifiers)]
  | .HostRule _ ip hostnames comment => named [("ip",some ip),("hostnames",some hostnames),("comment",comment)]
  | .ModifierList _ children => elements (children.map some) 0
  | .Modifier _ name value => named [("name",some name),("value",value)]
  | .HostnameList _ children => elements (children.map some) 0
  | .CosmeticRule _ _ domains modifiers separator body =>
    named [("domains",some domains),("modifiers",modifiers),("separator",some separator),("body",body)]
  | .DomainList _ children => elements (children.map some) 0
  | .CommentRule _ marker text => named [("marker",some marker),("text",some text)]
  | .MetadataCommentRule _ marker header value => named [("marker",some marker),("header",some header),("value",some value)]
  | .ConfigCommentRule _ marker command params comment =>
    named [("marker",some marker),("command",some command),("params",params),("comment",comment)]
  | .PreProcessorCommentRule _ name params => named [("name",some name),("params",params)]
  | .AgentCommentRule _ children => elements (children.map some) 0
  | .HintCommentRule _ children => elements (children.map some) 0
  | .ElementHidingRuleBody _ selectorList => named [("selectorList",some selectorList)]
  | .CssInjectionRuleBody _ mediaQueryList selectorList declarationList =>
    named [("mediaQueryList",mediaQueryList),("selectorList",some selectorList),("declarationList",declarationList)]
  | .ScriptletInjectionRuleBody _ children => elements (children.map some) 0
  | .ParameterList _ children => elements children 0
  | .Hint _ name params => named [("name",some name),("params",params)]
  | .Agent _ adblock version => named [("adblock",some adblock),("version",version)]
  | .Operator _ left right => named [("left",some left),("right",right)]
  | .Parenthesis _ expression => named [("expression",some expression)]
  | .Leaf .. => []
  | .Other .. => []

def filled (slots : List (Edge × Option (Node δ))) : List (Edge × Node δ) :=
  slots.filterMap fun slot => slot.2.map fun child => (slot.1,child)

def structuralChildren (node : Node δ) : List (Edge × Node δ) := filled (slots node)

theorem named_smaller {rows : List (String × Option (Node δ))} (few : ∀ row ∈ rows, sizeOf row.2 ≤ n)
    (member : (edge,some child) ∈ named rows) : sizeOf child < n := by
  obtain ⟨row,there,same⟩ := List.mem_map.mp member
  have held : row.2 = some child := (Prod.mk.inj same).2
  have bound := few row there
  rw [held,Option.some.sizeOf_spec] at bound
  omega

theorem mem_elements {children : List (Option (Node δ))} (member : (edge,some child) ∈ elements children i) :
    some child ∈ children := by
  obtain ⟨row,there,same⟩ := List.mem_map.mp member
  rw [← (Prod.mk.inj same).2]
  exact List.fst_mem_of_mem_zipIdx there

theorem children_smaller {children : List (Node δ)} (member : (edge,some child) ∈ elements (children.map some) i) :
    sizeOf child < sizeOf children := by
  obtain ⟨other,inside,same⟩ := List.mem_map.mp (mem_elements member)
  rw [← Option.some.inj same]
  exact List.sizeOf_lt_of_mem inside

theorem parameters_smaller {children : List (Option (Node δ))} (member : (edge,some child) ∈ elements children i) :
    sizeOf child < sizeOf children := by
  have inside := List.sizeOf_lt_of_mem (mem_elements member)
  rw [Option.some.sizeOf_spec] at inside
  omega

theorem slot_smaller (node : Node δ) (member : (edge,some child) ∈ slots node) : sizeOf child < sizeOf node := by
  cases node with
  | FilterList _ children | ModifierList _ children | HostnameList _ children | DomainList _ children
  | AgentCommentRule _ children | HintCommentRule _ children | ScriptletInjectionRuleBody _ children =>
    have small := children_smaller member
    simp
    omega
  | ParameterList _ children =>
    have small := parameters_smaller member
    simp
    omega
  | Leaf | Other => cases member
  | _ =>
    refine named_smaller ?_ member
    simp
    try omega

theorem elements_distinct (children : List (Option (Node δ))) (i : Nat) : ((elements children i).map Prod.fst).Nodup := by
  have numbered : (elements children i).map Prod.fst = (List.range' i children.length).map (Edge.element "children".toList) := by
    rw [elements,List.map_map,← List.zipIdx_map_snd,List.map_map]
    rfl
  rw [numbered]
  refine List.Nodup.map ?_ List.nodup_range'
  intro one two same
  exact (Edge.element.inj same).2

theorem slots_distinct (node : Node δ) : ((slots node).map Prod.fst).Nodup := by
  cases node with
  | FilterList | ModifierList | HostnameList | DomainList | AgentCommentRule | HintCommentRule
  | ScriptletInjectionRuleBody | ParameterList => exact elements_distinct _ _
  | Leaf | Other => exact List.nodup_nil
  | _ => simp [slots,named]

theorem mem_structuralChildren {node : Node δ} (member : branch ∈ structuralChildren node) :
    (branch.1,some branch.2) ∈ slots node := by
  obtain ⟨slot,there,held⟩ := List.mem_filterMap.mp member
  obtain ⟨child,some_,same⟩ := Option.map_eq_some_iff.mp held
  subst same
  rw [← some_]
  exact there

theorem filled_sublist (slots : List (Edge × Option (Node δ))) : ((filled slots).map Prod.fst).Sublist (slots.map Prod.fst) := by
  induction slots with
  | nil => exact .slnil
  | cons slot rest ih =>
    obtain ⟨edge,_ | child⟩ := slot
    · exact ih.cons edge
    · exact ih.cons_cons edge

noncomputable def schema : Schema (Node δ) Edge where
  branches := structuralChildren
  size := sizeOf
  smaller node _ member := slot_smaller node (mem_structuralChildren member)
  distinct node := (slots_distinct node).sublist (filled_sublist (slots node))

end Structure

section Traversal
variable (visitor : Visitor δ σ)

-- What a slot of a node comes to in its case of the switch.
def descend (node : Node δ) (childDepth : Nat) (slot : Edge × Option (Node δ)) : Step σ :=
  opt visitor node childDepth slot.2 slot.1.key slot.1.index

theorem every_sweep (node : Node δ) (childDepth : Nat) (children : List (Node δ)) (i : Nat) :
    every visitor node childDepth children i = sweep (descend visitor node childDepth) (elements (children.map some) i) := by
  induction children generalizing i with
  | nil => simp [every,elements]
  | cons child rest ih =>
    rw [every,ih]
    simp [elements,descend,opt,Edge.key,Edge.index]

theorem everyParameter_sweep (node : Node δ) (childDepth : Nat) (children : List (Option (Node δ))) (i : Nat) :
    everyParameter visitor node childDepth children i = sweep (descend visitor node childDepth) (elements children i) := by
  induction children generalizing i with
  | nil => simp [everyParameter,elements]
  | cons child rest ih =>
    rw [everyParameter,ih]
    simp [elements,descend,Edge.key,Edge.index]

-- Every case of the switch goes through the slots of its type in order.
theorem walkChildren_slots (node : Node δ) (childDepth : Nat) :
    walkChildren visitor node childDepth = sweep (descend visitor node childDepth) (slots node) := by
  cases node with
  | FilterList | ModifierList | HostnameList | DomainList | AgentCommentRule | HintCommentRule | ScriptletInjectionRuleBody =>
    rw [walkChildren,every_sweep,slots]
  | ParameterList => rw [walkChildren,everyParameter_sweep,slots]
  | Leaf | Other => rw [walkChildren,slots,sweep_nil]
  | _ =>
    rw [walkChildren]
    simp [slots,named,descend,opt,Edge.key,Edge.index]

def contextOf (rootIndex : Option Nat) (visit : Visit (Node δ) Edge) : WalkContext δ where
  parent := visit.parent
  key := visit.path.getLast?.map Edge.key
  index := visit.path.getLast?.elim rootIndex Edge.index
  depth := visit.path.length

theorem walkChildren_branches (rootIndex : Option Nat) (visit : Visit (Node δ) Edge) :
    walkChildren visitor visit.node (visit.path.length+1) =
      sweep (fun branch => visitNode visitor branch.2 (contextOf rootIndex (visit.below branch))) (structuralChildren visit.node) := by
  rw [walkChildren_slots,structuralChildren]
  induction slots visit.node with
  | nil => rfl
  | cons slot rest ih =>
    obtain ⟨edge,_ | child⟩ := slot
    · rw [sweep_cons,ih,descend,opt]
      rfl
    · rw [sweep_cons,ih,descend,opt,req]
      simp [filled,contextOf,Visit.below]

def meeting (rootIndex : Option Nat) (visit : Visit (Node δ) Edge) : Node δ × WalkContext δ :=
  (visit.node,contextOf rootIndex visit)

def consult (met : Node δ × WalkContext δ) : Step σ := proceed visitor met.1 met.2

-- By induction on the node: its children are walked in the same way.
theorem visitNode_preorder (rootIndex : Option Nat) (visit : Visit (Node δ) Edge) :
    visitNode visitor visit.node (contextOf rootIndex visit) =
      sweep (consult visitor) ((schema.preorder visit).map (meeting rootIndex)) := by
  rw [sweep_map]
  induction size : sizeOf visit.node using Nat.strongRecOn generalizing visit with
  | ind n ih =>
    subst size
    have below (branch : Edge × Node δ) (member : branch ∈ structuralChildren visit.node) :
        visitNode visitor branch.2 (contextOf rootIndex (visit.below branch)) =
          sweep (fun later => consult visitor (meeting rootIndex later)) (schema.preorder (visit.below branch)) :=
      ih _ (schema.smaller visit.node branch member) (visit.below branch) rfl
    rw [visitNode,preorder_eq,sweep_cons,sweep_flatMap]
    have children := walkChildren_branches visitor rootIndex visit
    rw [sweep_congr below] at children
    exact congrArg (andThen _) children

-- The nodes in pre-order, each with the number of its root and the names that
-- lead to it from there.
noncomputable def preorderFrom (nodes : List (Node δ)) (i : Nat) : List (Nat × Visit (Node δ) Edge) :=
  (nodes.zipIdx i).flatMap fun root => (schema.preorder ⟨[],none,root.1⟩).map (root.2,·)

noncomputable def structuralNodes (root : Root δ) : List (Nat × Visit (Node δ) Edge) := preorderFrom root.nodes 0

-- Roots are numbered where there are several.
def placed (count : Nat) (place : Nat × Visit (Node δ) Edge) : Node δ × WalkContext δ :=
  meeting (if 1 < count then some place.1 else none) place.2

theorem walkFrom_preorder (count : Nat) (nodes : List (Node δ)) (i : Nat) :
    walkFrom visitor count nodes i = sweep (consult visitor) ((preorderFrom nodes i).map (placed count)) := by
  induction nodes generalizing i with
  | nil => rfl
  | cons node rest ih =>
    have first := visitNode_preorder visitor (if 1 < count then some i else none) ⟨[],none,node⟩
    have others : preorderFrom (node :: rest) i =
        (schema.preorder ⟨[],none,node⟩).map (i,·) ++ preorderFrom rest (i+1) := by simp [preorderFrom]
    rw [walkFrom,ih,others,List.map_append,sweep_append,List.map_map]
    exact congrArg (andThen · _) first

end Traversal

section Recording

abbrev Calls (δ : Type) := List (Node δ × WalkContext δ)

def recorded (visit : NodeVisitor δ σ) : NodeVisitor δ (σ × Calls δ) := fun node ctx s =>
  let returned := visit node ctx s.1
  (returned.1,returned.2,s.2 ++ [(node,ctx)])

-- The visitor with a record of the calls of its callbacks.
def Visitor.recorded : Visitor δ σ → Visitor δ (σ × Calls δ)
  | .callback visit => .callback (AGTreeWalker.recorded visit)
  | .typed map => .typed fun type => (map type).map AGTreeWalker.recorded

def Visitor.hears : Visitor δ σ → Node δ → Bool
  | .callback _,_ => true
  | .typed map,node => (map node.type).isSome || (map ['*']).isSome

theorem consult_recorded (visitor : Visitor δ σ) :
    consult visitor.recorded = recording (fun met => visitor.hears met.1) (consult visitor) := by
  funext met
  cases visitor with
  | callback visit => rfl
  | typed map =>
    have same : handlerOf (fun type => (map type).map AGTreeWalker.recorded) met.1 =
        (handlerOf map met.1).map AGTreeWalker.recorded := Option.map_or.symm
    funext s
    rw [consult,Visitor.recorded,proceed,dispatchTyped,same,recording,consult,proceed,dispatchTyped,Visitor.hears,← Option.isSome_or,
      ← handlerOf]
    cases handlerOf map met.1 <;> rfl

theorem structuralNodes_exact (root : Root δ) (place : Nat × Visit (Node δ) Edge) :
    place ∈ structuralNodes root ↔
      ∃ node, root.nodes[place.1]? = some node ∧ schema.Reaches ⟨[],none,node⟩ place.2 := by
  rw [structuralNodes,preorderFrom,List.mem_flatMap]
  constructor
  · intro met
    obtain ⟨numbered,there,inside⟩ := met
    obtain ⟨visit,reached,rfl⟩ := List.mem_map.mp inside
    exact ⟨numbered.1,List.mem_zipIdx_iff_getElem?.mp there,(preorder_reaches schema _).mp reached⟩
  · intro given
    obtain ⟨node,there,reached⟩ := given
    refine ⟨(node,place.1),List.mem_zipIdx_iff_getElem?.mpr there,List.mem_map.mpr ?_⟩
    exact ⟨place.2,(preorder_reaches schema _).mpr reached,rfl⟩

-- Within a tree by the paths, among the trees by the numbers.
theorem structuralNodes_once (root : Root δ) : ((structuralNodes root).map fun place => (place.1,place.2.path)).Nodup := by
  have numbers : (root.nodes.zipIdx.map Prod.snd).Nodup := by
    rw [List.zipIdx_map_snd]
    exact List.nodup_range'
  have tree (numbered : Node δ × Nat) :
      ((schema.preorder ⟨[],none,numbered.1⟩).map (numbered.2,·)).map (fun place => (place.1,place.2.path)) =
        ((schema.preorder ⟨[],none,numbered.1⟩).map Visit.path).map (numbered.2,·) := by simp
  rw [structuralNodes,preorderFrom,List.map_flatMap,List.nodup_flatMap]
  constructor
  · intro numbered _
    rw [tree]
    refine (preorder_once schema _).map ?_
    exact Prod.mk_right_injective numbered.2
  · refine (List.pairwise_map.mp numbers).imp ?_
    intro one two different
    rw [Function.onFun,tree,tree,List.disjoint_left]
    intro place first second
    obtain ⟨path,_,rfl⟩ := List.mem_map.mp first
    obtain ⟨other,_,same⟩ := List.mem_map.mp second
    exact different (Prod.mk.inj same).1.symm

-- The calls of a walk: the nodes in pre-order to the first that is answered
-- with false, those of them that a callback is there for.
theorem walkAGTree_consults (root : Root δ) (visitor : Visitor δ σ) (s : σ) :
    let consulted := upTo (consult visitor) ((structuralNodes root).map (placed root.nodes.length)) s
    walkAGTree visitor.recorded root (s,[]) = (walkAGTree visitor root s,consulted.filter fun met => visitor.hears met.1) ∧
      ((structuralNodes root).map fun place => (place.1,place.2.path)).Nodup ∧
      ∀ place, place ∈ structuralNodes root ↔
        ∃ node, root.nodes[place.1]? = some node ∧ schema.Reaches ⟨[],none,node⟩ place.2 := by
  intro consulted
  refine ⟨?_,structuralNodes_once root,structuralNodes_exact root⟩
  rw [walkAGTree,walkAGTree,walkFrom_preorder,walkFrom_preorder,consult_recorded,sweep_recording]
  rfl

-- A visitor with a callback for values: the rule has none.
def typedCounts : Text → Option (NodeVisitor Unit Nat) := fun type =>
  if type = "Value".toList then some fun _ _ count => (.void,count+1) else none

def oneRule : Node Unit := .NetworkRule () (.Leaf .Value ()) none

example : ((walkAGTree (Visitor.typed typedCounts).recorded (.one oneRule) (0,[])).2.map fun call => (call.1.type,call.2.depth)) =
    [("Value".toList,1)] := by
  rw [walkAGTree,Root.nodes,oneRule,walkFrom,visitNode,walkChildren,req,visitNode,walkChildren,opt,walkFrom]
  rfl

end Recording
end AdblockCompiler.AGTreeWalker
