import ContractTyping.Text.Quoted

/-!
Kinds of tree nodes. The known kinds form the vocabulary of contract sources; every other name is
an open kind, which the pass leaves alone unless a rule is registered for it.
-/

namespace ContractTyping

inductive Tag where
  | source | block | title
  | importList | noImport | importDecl | variableDecl | importPair
  | vPair | pair
  | functionDecl | functionName | functionParam | fdParam | fdPair | fdBody
  | assign | returnStatement | recordStatement | completeStatement | eventStatement | eventDecl
  | map1 | map2 | raw
  | structDefine | enumType | enumDefine | enumElement
  | intExpr
  | wordDefine | assumeDecls | assumeDecl
  | require | infixExpr | nameExpr | text
  | typeDecls | returnType | notConstructor | viewType | memoryType
  | other (name : String)
  deriving DecidableEq, Repr

namespace Tag

instance : Inhabited Tag := ⟨.other ""⟩

def name : Tag → String
  | source => "Source"
  | block => "Block"
  | title => "Title"
  | importList => "Import"
  | noImport => "NoImport"
  | importDecl => "ImportDecl"
  | variableDecl => "VariableDecl"
  | importPair => "ImportPair"
  | vPair => "VPair"
  | pair => "Pair"
  | functionDecl => "FunctionDecl"
  | functionName => "FunctionName"
  | functionParam => "FunctionParam"
  | fdParam => "FDParam"
  | fdPair => "FDPair"
  | fdBody => "FDBody"
  | assign => "Assign"
  | returnStatement => "Return"
  | recordStatement => "RecordStatement"
  | completeStatement => "CompleteStatement"
  | eventStatement => "EventStatement"
  | eventDecl => "EventDecl"
  | map1 => "Map1"
  | map2 => "Map2"
  | raw => "Raw"
  | structDefine => "StructDefine"
  | enumType => "EnumType"
  | enumDefine => "EnumDefine"
  | enumElement => "EnumElement"
  | intExpr => "IntExpr"
  | wordDefine => "WordDefine"
  | assumeDecls => "AssumeDecls"
  | assumeDecl => "AssumeDecl"
  | require => "Require"
  | infixExpr => "Infix"
  | nameExpr => "NameExpr"
  | text => "Text"
  | typeDecls => "TypeDecls"
  | returnType => "ReturnType"
  | notConstructor => "NotConstructor"
  | viewType => "ViewType"
  | memoryType => "MemoryType"
  | other name => name

/-- The vocabulary: every kind that is not open. -/
def known : List Tag :=
  [source, block, title, importList, noImport, importDecl, variableDecl, importPair, vPair, pair,
   functionDecl, functionName, functionParam, fdParam, fdPair, fdBody, assign, returnStatement,
   recordStatement, completeStatement, eventStatement, eventDecl, map1, map2, raw, structDefine,
   enumType, enumDefine, enumElement, intExpr, wordDefine, assumeDecls, assumeDecl, require,
   infixExpr, nameExpr, text, typeDecls, returnType, notConstructor, viewType, memoryType]

def isKnown : Tag → Bool
  | other _ => false
  | _ => true

/-- The kind a name stands for: names outside the vocabulary are open kinds. -/
def ofName (s : String) : Tag := (known.find? (·.name == s)).getD (other s)

/-- The kind as text, with open names marked and quoted. -/
def describe : Tag → String
  | other name => "Other(" ++ quoted name ++ ")"
  | tag => tag.name

theorem isKnown_iff_mem (t : Tag) : t.isKnown = true ↔ t ∈ known := by
  cases t <;> simp [isKnown, known]

theorem ofName_name {t : Tag} (h : t.isKnown = true) : ofName t.name = t := by
  cases t with
  | other s => simp [isKnown] at h
  | _ => rfl

theorem name_ofName (s : String) : (ofName s).name = s := by
  unfold ofName
  cases h : known.find? (·.name == s) with
  | none => rfl
  | some t => simpa using List.find?_some h

end Tag

end ContractTyping
