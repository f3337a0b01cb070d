import SumLang.Text.Place
import SumLang.Text.Quoted
import SumLang.Token.Lexeme

/-!
# Token feeds

A text is read from left to right into tokens up to its end, up to its first illegal
character, or up to a lone surrogate, which takes no known number of bytes. The feed keeps
both parts: the tokens, and the error that comes after the last of them.
-/

namespace SumLang

/-- An illegal character and where it stands. -/
structure LexError where
  char : String
  /-- The number of bytes before the character. -/
  offset : Int
  /-- The line of the character, where it is known. -/
  line : Option Int := none
  deriving DecidableEq, Repr

/-- The report of an illegal character. -/
def LexError.message (e : LexError) (file : Option String) : String :=
  "Unexpected character " ++ quoted e.char ++ " at offset " ++ toString e.offset ++
    placeSuffix e.line file

/-- Why a feed does not go on to an end mark. -/
inductive FeedError where
  /-- The text has an illegal character. -/
  | illegal (e : LexError)
  /-- The length of a text was needed for which UTF-8 has no form. -/
  | unencodable
  deriving DecidableEq, Repr

instance : Coe LexError FeedError := ⟨.illegal⟩

/-- Why no end mark can be placed after a token: its text has no length. -/
def Token.endError? (t : Token) : Option FeedError :=
  if t.encodable then none else some .unencodable

/-- Tokens in order, and the error, if any, that stands in place of the end mark after the last
one. -/
structure TokenFeed where
  tokens : List Token
  error : Option FeedError := none
  deriving DecidableEq, Repr

/-- A place in a text. -/
structure Position where
  /-- The number of bytes before the place. -/
  offset : Nat := 0
  /-- One more than the number of line feeds before the place. -/
  line : Nat := 1
  deriving DecidableEq, Repr

/-- The place after some characters. -/
def Position.after (p : Position) (s : List Char) : Position :=
  ⟨p.offset + utf8Length s, p.line + lineFeeds s⟩

namespace TokenFeed

/-- A feed with one more token in front. -/
def cons (t : Token) (f : TokenFeed) : TokenFeed := ⟨t :: f.tokens, f.error⟩

/-- Turns lexemes into tokens, the first of them standing at `p`, up to the first illegal one. -/
def ofLexemes (p : Position) : List Lexeme → TokenFeed
  | [] => ⟨[], none⟩
  | ⟨cls, text⟩ :: rest =>
    let token (kind : Kind) : Token := ⟨kind, some (String.ofList text), p.line, p.offset⟩
    let later := ofLexemes (p.after text) rest
    match cls with
    | .letter => later.cons (token (.ofWord text))
    | .digit => later.cons (token .number)
    | .symbol kind => later.cons (token kind)
    | .blank => later
    | .illegal => ⟨[], some (.illegal ⟨String.ofList text, p.offset, some p.line⟩)⟩

/-- The tokens of a text. A lone surrogate is measured before it is found to be illegal. -/
def ofText (code : Text) : TokenFeed :=
  let feed := ofLexemes {} (Lexeme.split code.front.toList)
  if code.encodable then feed else ⟨feed.tokens, feed.error.or (some .unencodable)⟩

/-- A feed of given tokens. -/
def ofTokens (ts : List Token) : TokenFeed := ⟨ts, ts.getLast?.bind Token.endError?⟩

/-- Where UTF-8 has a form for the text of the last token, an end mark follows it. -/
theorem ofTokens_eq {ts : List Token} (h : ∀ t ∈ ts.getLast?, t.encodable = true) :
    ofTokens ts = ⟨ts, none⟩ := by
  unfold ofTokens
  cases hlast : ts.getLast? with
  | none => rfl
  | some last => rw [Option.bind_some, Token.endError?, if_pos (h last hlast)]

end TokenFeed

end SumLang
