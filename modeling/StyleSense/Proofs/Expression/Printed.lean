import StyleSense.Proofs.Node.Printable

/-!
Contract: the tokens that source texts of values are made of.

Owns:
- `Printed`, the grammar of source texts with its precedence: the tokens of an operand, of several
  terms, of the arguments of a call and of the entries of an object;
- `Printed.lexes`: the source text of each of them is cut into just these tokens.

A text is printed after a blank or not, which shows at its first token.

Does not own: which values are printed by the grammar (`StyleSense.Proofs.Expression.Printing`) and how
such tokens are read (`StyleSense.Proofs.Expression.Rereading`).
-/

namespace StyleSense

open Text

namespace Expression

/-! ## The grammar -/

/-- What ends several terms. -/
inductive Stop where
  | comma
  | round
  | curly

/-- How it is written. -/
def Stop.char : Stop → Char
  | comma => ','
  | round => ')'
  | curly => '\x7d'

/-- The kind of its token. -/
def Stop.kind : Stop → Token.Kind
  | comma => .comma
  | round => .closing .round
  | curly => .closing .curly

/-- A part of a source text: an operand of operators whose level has at least a rank, several terms,
of which the last one can be a `? :` if they are open, several terms with their stop, arguments with
the closing parenthesis, or entries with the closing brace. -/
inductive Piece where
  | operand (rank : Nat) (node : Node)
  | value (isOpen : Bool) (nodes : List Node)
  | ended (nodes : List Node) (stop : Stop)
  | arguments (args : List Node)
  | entries (members : List (String × Node))

/-- A name with members after it. -/
def memberName (first : String) (keys : List String) : String :=
  keys.foldl (fun name key => name ++ "." ++ key) first

/-- The kinds of the tokens of the members. -/
def memberKinds (keys : List String) : List (Token.Kind × Bool) :=
  keys.flatMap fun key => [(.op .dot, false), (.name key, false)]

/-- A token of this kind starts a term wherever it stands: it is no sign and no word for one. -/
def startsTerm : Token.Kind → Bool
  | .name text => !(["and", "or", "is"].contains text)
  | .number .. | .hash _ | .string _ | .url _ | .opening .curly => true
  | _ => false

/-- The tokens start with a term, also right after another one. -/
inductive StartsTerm (spaced : Bool) : List (Token.Kind × Bool) → Prop
  | plain {kind : Token.Kind} {rest : List (Token.Kind × Bool)}
      (isStart : startsTerm kind = true) :
      StartsTerm spaced ((kind, spaced) :: rest)
  | negative {value : Float} {suffix : Option String} {rest : List (Token.Kind × Bool)} :
      StartsTerm spaced ((.op .minus, spaced) :: (.number value suffix, false) :: rest)

theorem StartsTerm.append
    {spaced : Bool}
    {kinds : List (Token.Kind × Bool)}
    (starts : StartsTerm spaced kinds)
    (more : List (Token.Kind × Bool)) :
    StartsTerm spaced (kinds ++ more) := by
  cases starts with
  | plain isStart => exact .plain isStart
  | negative => exact .negative

/-- The source text of the piece has tokens of these kinds. -/
inductive Printed : Piece → Bool → List (Token.Kind × Bool) → Prop
  | unit {rank : Nat} {spaced : Bool} {value : Float} {suffix : Option String} {pos : SourcePos}
      (number : WrittenNumber)
      (noPercent : number.percent = false)
      (isText : (Number.plain value).toList = number.text)
      (same : number.channel.value = value)
      (isSuffix : Token.IsSuffix suffix) :
      Printed (.operand rank (.unit value suffix pos)) spaced (number.signed suffix spaced)
  | ident {rank : Nat} {spaced : Bool} {first : String} {keys : List String} {pos : SourcePos}
      (isName : Token.IsNameText first.toList)
      (areNames : ∀ key ∈ keys, Token.IsNameText key.toList)
      (notDenial : first ≠ "not") :
      Printed (.operand rank (.ident (memberName first keys) none pos)) spaced
        ((.name first, spaced) :: memberKinds keys)
  | hash {rank : Nat} {spaced : Bool} {text : String} {pos : SourcePos}
      (isHash : Token.IsHashText text.toList) :
      Printed (.operand rank (hashTerm text pos)) spaced [(.hash text, spaced)]
  | string {rank : Nat} {spaced : Bool} {value : String} {pos : SourcePos}
      (quotable : IsQuotable value) :
      Printed (.operand rank (.string value pos)) spaced [(.string value, spaced)]
  | url {rank : Nat} {spaced : Bool} {body : String} {bodyPos listPos pos : SourcePos}
      (isBody : Token.IsUrlBody body) :
      Printed (.operand rank (.call "url" [.expression ⟨[.string body bodyPos], listPos⟩] pos)) spaced
        [(.url body, spaced)]
  | call {rank : Nat} {spaced : Bool} {name : String} {args : List Node} {pos : SourcePos}
      {kinds : List (Token.Kind × Bool)}
      (isName : Token.IsNameText name.toList)
      (notUrl : name ≠ "url")
      (notDenial : name ≠ "not")
      (inside : Printed (.arguments args) false kinds) :
      Printed (.operand rank (.call name args pos)) spaced
        ((.name name, spaced) :: (.opening .round, false) :: kinds)
  | object {rank : Nat} {spaced : Bool} {entries : List (String × Node)} {pos : SourcePos}
      {kinds : List (Token.Kind × Bool)}
      (inside : Printed (.entries entries) false kinds) :
      Printed (.operand rank (.object entries pos)) spaced ((.opening .curly, spaced) :: kinds)
  | binary {rank : Nat} {spaced : Bool} {sign : Operator} {level : Operator.Level}
      {left right : Node} {pos : SourcePos} {kinds others : List (Token.Kind × Bool)}
      (isLevel : sign.level? = some level)
      (binds : rank ≤ level.rank)
      (lefts : Printed (.operand level.rank left) spaced kinds)
      (rights : Printed (.operand (level.rank + 1) right) true others) :
      Printed (.operand rank (.binary sign.spelling left right pos)) spaced
        (kinds ++ (.op sign, true) :: others)
  | single {isOpen spaced : Bool} {node : Node} {kinds : List (Token.Kind × Bool)}
      (only : Printed (.operand 0 node) spaced kinds) :
      Printed (.value isOpen [node]) spaced kinds
  | conditional {spaced : Bool} {test : Node} {whenTrue whenFalse : List Node}
      {truePos falsePos pos : SourcePos} {kinds first second : List (Token.Kind × Bool)}
      (tests : Printed (.operand 0 test) spaced kinds)
      (firsts : Printed (.value false whenTrue) true first)
      (seconds : Printed (.value true whenFalse) true second) :
      Printed (.value true [.ternary test (.expression ⟨whenTrue, truePos⟩)
        (.expression ⟨whenFalse, falsePos⟩) pos]) spaced
        (kinds ++ (.op .question, true) :: (first ++ (.op .colon, true) :: second))
  | cons {isOpen spaced : Bool} {node next : Node} {nodes : List Node}
      {kinds others : List (Token.Kind × Bool)}
      (first : Printed (.operand 0 node) spaced kinds)
      (later : Printed (.value isOpen (next :: nodes)) true others)
      (starts : StartsTerm true others) :
      Printed (.value isOpen (node :: next :: nodes)) spaced (kinds ++ others)
  | nothing {spaced : Bool} (stop : Stop) : Printed (.ended [] stop) spaced [(stop.kind, spaced)]
  | something {spaced : Bool} {nodes : List Node} {kinds : List (Token.Kind × Bool)} (stop : Stop)
      (terms : Printed (.value true nodes) spaced kinds) :
      Printed (.ended nodes stop) spaced (kinds ++ [(stop.kind, false)])
  | noArguments {spaced : Bool} : Printed (.arguments []) spaced [(.closing .round, spaced)]
  | lastArgument {spaced : Bool} {nodes : List Node} {pos : SourcePos}
      {kinds : List (Token.Kind × Bool)}
      (nonempty : nodes ≠ [])
      (last : Printed (.ended nodes .round) spaced kinds) :
      Printed (.arguments [.expression ⟨nodes, pos⟩]) spaced kinds
  | argument {spaced : Bool} {nodes rest : List Node} {next : Node} {pos : SourcePos}
      {kinds others : List (Token.Kind × Bool)}
      (first : Printed (.ended nodes .comma) spaced kinds)
      (later : Printed (.arguments (next :: rest)) true others) :
      Printed (.arguments (.expression ⟨nodes, pos⟩ :: next :: rest)) spaced (kinds ++ others)
  | noEntries {spaced : Bool} : Printed (.entries []) spaced [(.closing .curly, spaced)]
  | lastEntry {spaced : Bool} {key : String} {nodes : List Node} {pos : SourcePos}
      {kinds : List (Token.Kind × Bool)}
      (isName : Token.IsNameText key.toList)
      (last : Printed (.ended nodes .curly) true kinds) :
      Printed (.entries [(key, .expression ⟨nodes, pos⟩)]) spaced
        ((.name key, spaced) :: (.op .colon, false) :: kinds)
  | entry {spaced : Bool} {key : String} {nodes : List Node} {pos : SourcePos}
      {next : String × Node} {rest : List (String × Node)} {kinds others : List (Token.Kind × Bool)}
      (isName : Token.IsNameText key.toList)
      (isNew : key ∉ (next :: rest).map Prod.fst)
      (first : Printed (.ended nodes .comma) true kinds)
      (later : Printed (.entries (next :: rest)) true others) :
      Printed (.entries ((key, .expression ⟨nodes, pos⟩) :: next :: rest)) spaced
        ((.name key, spaced) :: (.op .colon, false) :: (kinds ++ others))

/-- An operand of tighter operators is one of looser operators. -/
theorem Printed.loosen
    {rank rank' : Nat}
    {node : Node}
    {spaced : Bool}
    {kinds : List (Token.Kind × Bool)}
    (printed : Printed (.operand rank node) spaced kinds)
    (looser : rank' ≤ rank) :
    Printed (.operand rank' node) spaced kinds := by
  cases printed with
  | unit number noPercent isText same isSuffix => exact .unit number noPercent isText same isSuffix
  | ident isName areNames notDenial => exact .ident isName areNames notDenial
  | hash isHash => exact .hash isHash
  | string quotable => exact .string quotable
  | url isBody => exact .url isBody
  | call isName notUrl notDenial inside => exact .call isName notUrl notDenial inside
  | object inside => exact .object inside
  | binary isLevel binds lefts rights =>
    exact .binary isLevel (Nat.le_trans looser binds) lefts rights

/-! ## Texts -/

/-- The source text of several terms. -/
def sourceOf (nodes : List Node) : List Char :=
  (" ".intercalate (Node.sources nodes)).toList

/-- The source text of a piece. -/
def Piece.text : Piece → List Char
  | operand _ node => node.source.toList
  | value _ nodes => sourceOf nodes
  | ended nodes stop => sourceOf nodes ++ [stop.char]
  | arguments args => (", ".intercalate (Node.sources args)).toList ++ [')']
  | entries members => (", ".intercalate (Node.entrySources members)).toList ++ ['\x7d']

theorem toList_intercalate_nil (separator : String) : (separator.intercalate []).toList = [] := by
  rw [String.toList_intercalate]
  rfl

theorem toList_intercalate_singleton (separator text : String) :
    (separator.intercalate [text]).toList = text.toList := by
  rw [String.toList_intercalate]
  simp

theorem toList_intercalate_cons_cons
    (separator first second : String)
    (rest : List String) :
    (separator.intercalate (first :: second :: rest)).toList =
      first.toList ++ (separator.toList ++ (separator.intercalate (second :: rest)).toList) := by
  rw [String.toList_intercalate, String.toList_intercalate, List.map_cons, List.map_cons,
    List.intercalate_cons_cons, List.append_assoc]

theorem toList_memberName
    (first : String)
    (keys : List String) :
    (memberName first keys).toList = first.toList ++ keys.flatMap fun key => '.' :: key.toList := by
  induction keys generalizing first with
  | nil => simp [memberName]
  | cons key rest inductionHypothesis =>
    have longer := inductionHypothesis (first ++ "." ++ key)
    rw [memberName] at longer ⊢
    rw [List.foldl_cons, longer]
    simp

theorem source_hashTerm
    (text : String)
    (pos : SourcePos) :
    (hashTerm text pos).source = text := by
  unfold hashTerm
  split <;> rw [Node.source]

theorem mem_termSigns
    {sign : Operator}
    {level : Operator.Level}
    (isLevel : sign.level? = some level) :
    sign ∈ Lexes.termSigns := by
  cases sign <;> first | decide | cases isLevel

theorem stops_space : Token.Stops ' ' :=
  Token.stops_of_isBlank (by decide)

theorem stopping_space (text : List Char) : Token.Stopping (blankIf true ++ text) :=
  Token.stopping_cons stops_space text

theorem Stop.stops (stop : Stop) : Token.Stops stop.char := by
  cases stop
  all_goals exact ⟨by decide, by decide, by decide, fun op => by cases op <;> decide, by decide⟩

theorem Stop.isMark (stop : Stop) : Token.punctuation? stop.char = some stop.kind := by
  cases stop <;> rfl

theorem lexes_members
    {keys : List String}
    (areNames : ∀ key ∈ keys, Token.IsNameText key.toList) :
    Lexes (keys.flatMap fun key => '.' :: key.toList) (memberKinds keys) ∧
      ∀ c ∈ (keys.flatMap fun key => '.' :: key.toList).head?, c = '.' := by
  induction keys with
  | nil => exact ⟨.done, by simp⟩
  | cons key rest inductionHypothesis =>
    obtain ⟨isName, others⟩ := List.forall_mem_cons.mp areNames
    obtain ⟨later, isDot⟩ := inductionHypothesis others
    rw [List.flatMap_cons, memberKinds, List.flatMap_cons, ← memberKinds]
    refine ⟨?_, by rintro c ⟨⟩; rfl⟩
    have named := Lexes.name false isName (fun c isFirst => by rw [isDot c isFirst]; decide)
      (fun _ c isFirst => by rw [isDot c isFirst]; decide) later
    cases isText : key.toList with
    | nil =>
      rw [isText] at isName
      exact isName.elim
    | cons lead cs =>
      rw [isText] at isName named
      exact Lexes.dot isName.1 named

/-- The source text of a piece is cut into its tokens. -/
theorem Printed.lexes
    {piece : Piece}
    {spaced : Bool}
    {kinds : List (Token.Kind × Bool)}
    (printed : Printed piece spaced kinds) :
    Lexes (blankIf spaced ++ piece.text) kinds := by
  induction printed with
  | @unit rank spaced value suffix pos number noPercent isText same isSuffix =>
    rw [Piece.text, Node.source, String.toList_append, isText]
    exact Lexes.unit number noPercent isSuffix spaced
  | @ident rank spaced first keys pos isName areNames notDenial =>
    obtain ⟨later, isDot⟩ := lexes_members areNames
    rw [Piece.text, Node.source, toList_memberName]
    exact Lexes.name spaced isName (fun c isFirst => by rw [isDot c isFirst]; decide)
      (fun _ c isFirst => by rw [isDot c isFirst]; decide) later
  | @hash rank spaced text pos isHash =>
    rw [Piece.text, source_hashTerm]
    exact Lexes.hash spaced isHash
  | @string rank spaced value pos quotable =>
    have text : (Node.string value pos).source.toList = '\'' :: (value.toList ++ ['\'']) := by
      simp [Node.source]
    rw [Piece.text, text]
    exact Lexes.string spaced quotable
  | @url rank spaced body bodyPos listPos pos isBody =>
    have text : (Node.call "url" [.expression ⟨[.string body bodyPos], listPos⟩] pos).source.toList =
        "url('".toList ++ (body.toList ++ "')".toList) := by
      simp [Node.source, Node.sources, Expression.source]
    rw [Piece.text, text]
    exact Lexes.url spaced isBody
  | @call rank spaced name args pos kinds isName notUrl notDenial inside inductionHypothesis =>
    have text : (Node.call name args pos).source.toList =
        name.toList ++ '(' :: (Piece.arguments args).text := by
      simp [Node.source, Piece.text]
    rw [Piece.text, text]
    exact Lexes.name spaced isName (by rintro c ⟨⟩; decide) (fun isUrl => absurd isUrl notUrl)
      (Lexes.mark false rfl inductionHypothesis)
  | @object rank spaced entries pos kinds inside inductionHypothesis =>
    have text : (Node.object entries pos).source.toList = '\x7b' :: (Piece.entries entries).text := by
      simp [Node.source, Piece.text]
    rw [Piece.text, text]
    exact Lexes.mark spaced rfl inductionHypothesis
  | @binary rank spaced sign level left right pos kinds others isLevel binds lefts rights leftLexes
      rightLexes =>
    have text : (Node.binary sign.spelling left right pos).source.toList = left.source.toList ++
        (blankIf true ++ sign.spelling.toList ++ (blankIf true ++ right.source.toList)) := by
      simp [Node.source, blankIf]
    have signLexes := Lexes.sign true (mem_termSigns isLevel)
    rw [Piece.text, text, ← List.append_assoc]
    refine leftLexes.append ?_ (signLexes.append (stopping_space _) rightLexes)
    rw [List.append_assoc]
    exact stopping_space _
  | @single isOpen spaced node kinds only inductionHypothesis =>
    rw [Piece.text, sourceOf, Node.sources, Node.sources, toList_intercalate_singleton]
    exact inductionHypothesis
  | @conditional spaced test whenTrue whenFalse truePos falsePos pos kinds first second tests firsts
      seconds testLexes firstLexes secondLexes =>
    have text : (Piece.value true [.ternary test (.expression ⟨whenTrue, truePos⟩)
        (.expression ⟨whenFalse, falsePos⟩) pos]).text = test.source.toList ++
          (blankIf true ++ Operator.question.spelling.toList ++ (blankIf true ++ sourceOf whenTrue ++
            (blankIf true ++ Operator.colon.spelling.toList ++
              (blankIf true ++ sourceOf whenFalse)))) := by
      rw [Piece.text, sourceOf, Node.sources, Node.sources, toList_intercalate_singleton]
      simp [Node.source, Expression.source, sourceOf, blankIf, Operator.spelling]
    have mark := @Lexes.sign true .question (by decide)
    have colon := @Lexes.sign true .colon (by decide)
    rw [text, ← List.append_assoc]
    refine testLexes.append ?_ (mark.append ?_ (firstLexes.append ?_
      (colon.append (stopping_space _) secondLexes)))
    · rw [List.append_assoc]
      exact stopping_space _
    · rw [List.append_assoc]
      exact stopping_space _
    · rw [List.append_assoc]
      exact stopping_space _
  | @cons isOpen spaced node next nodes kinds others first later starts firstLexes laterLexes =>
    have text : (Piece.value isOpen (node :: next :: nodes)).text =
        node.source.toList ++ (blankIf true ++ (Piece.value isOpen (next :: nodes)).text) := by
      simp only [Piece.text, sourceOf, Node.sources, toList_intercalate_cons_cons]
      rfl
    rw [text, ← List.append_assoc]
    exact firstLexes.append (stopping_space _) laterLexes
  | @nothing spaced stop =>
    rw [Piece.text, sourceOf, Node.sources, toList_intercalate_nil]
    exact Lexes.mark spaced stop.isMark .done
  | @something spaced nodes kinds stop terms inductionHypothesis =>
    rw [Piece.text, ← List.append_assoc]
    exact inductionHypothesis.append (Token.stopping_cons stop.stops [])
      (Lexes.mark false stop.isMark .done)
  | @noArguments spaced =>
    rw [Piece.text, Node.sources, toList_intercalate_nil]
    exact Lexes.mark spaced rfl .done
  | @lastArgument spaced nodes pos kinds nonempty last inductionHypothesis =>
    have text : (Piece.arguments [.expression ⟨nodes, pos⟩]).text = (Piece.ended nodes .round).text := by
      simp [Piece.text, Node.sources, Node.source, Expression.source, sourceOf, Stop.char]
    rw [text]
    exact inductionHypothesis
  | @argument spaced nodes rest next pos kinds others first later firstLexes laterLexes =>
    have text : (Piece.arguments (.expression ⟨nodes, pos⟩ :: next :: rest)).text =
        (Piece.ended nodes .comma).text ++ (blankIf true ++ (Piece.arguments (next :: rest)).text) := by
      simp [Piece.text, Node.sources, Node.source, Expression.source, sourceOf, Stop.char, blankIf]
    rw [text, ← List.append_assoc]
    exact firstLexes.append (stopping_space _) laterLexes
  | @noEntries spaced =>
    rw [Piece.text, Node.entrySources, toList_intercalate_nil]
    exact Lexes.mark spaced rfl .done
  | @lastEntry spaced key nodes pos kinds isName last inductionHypothesis =>
    have text : (Piece.entries [(key, .expression ⟨nodes, pos⟩)]).text =
        key.toList ++ (':' :: (blankIf true ++ (Piece.ended nodes .curly).text)) := by
      simp [Piece.text, Node.entrySources, Node.source, Expression.source, sourceOf, Stop.char, blankIf]
    have colon := @Lexes.sign false .colon (by decide)
    rw [text]
    exact Lexes.name spaced isName (by rintro c ⟨⟩; decide) (by rintro _ c ⟨⟩; decide)
      (colon.append (stopping_space _) inductionHypothesis)
  | @entry spaced key nodes pos next rest kinds others isName isNew first later firstLexes
      laterLexes =>
    have text : (Piece.entries ((key, .expression ⟨nodes, pos⟩) :: next :: rest)).text =
        key.toList ++ (':' :: (blankIf true ++ (Piece.ended nodes .comma).text ++
          (blankIf true ++ (Piece.entries (next :: rest)).text))) := by
      simp [Piece.text, Node.entrySources, Node.source, Expression.source, sourceOf, Stop.char, blankIf]
    have colon := @Lexes.sign false .colon (by decide)
    have inside := firstLexes.append (stopping_space _) laterLexes
    rw [text]
    exact Lexes.name spaced isName (by rintro c ⟨⟩; decide) (by rintro _ c ⟨⟩; decide)
      (colon.append (stopping_space _) inside)

end Expression

end StyleSense
