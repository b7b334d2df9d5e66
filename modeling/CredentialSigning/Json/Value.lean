import CredentialSigning.Json.Token

/-! JSON values. An object keeps its members in order, repeated names included. A value has one
sequence of tokens; the reader takes the tokens one at a time and keeps the containers that are
still open. -/

namespace CredentialSigning

inductive Json
  | null
  | bool (value : Bool)
  | number (value : Json.Decimal)
  | string (text : String)
  | array (items : List Json)
  | object (members : List (String × Json))

namespace Json

/-- Texts nest at most this many containers. -/
def nestingLimit : Nat := 127

/-- An open container with what it holds so far, in reverse. An object is open at a member. -/
inductive Frame
  | items (done : List Json)
  | members (done : List (String × Json)) (name : String)

/-- What may come next, and the open containers, innermost first. -/
inductive Progress
  | wantValue (frames : List Frame)
  | wantItem (frames : List Frame)
  | wantName (frames : List Frame) (done : List (String × Json))
  | wantColon (frames : List Frame) (done : List (String × Json)) (name : String)
  | complete (frames : List Frame) (value : Json)

namespace Progress

def begin? (frames : List Frame) : Token → Option Progress
  | .null => some (complete frames .null)
  | .bool value => some (complete frames (.bool value))
  | .number value => some (complete frames (.number value))
  | .string text => some (complete frames (.string text))
  | .leftBracket => if frames.length < nestingLimit then some (wantItem frames) else none
  | .leftBrace => if frames.length < nestingLimit then some (wantName frames []) else none
  | _ => none

/-- The token after a value inside an open container. -/
def continue? (value : Json) : List Frame → Token → Option Progress
  | .items done :: frames, .comma => some (wantValue (.items (value :: done) :: frames))
  | .items done :: frames, .rightBracket => some (complete frames (.array (value :: done).reverse))
  | .members done name :: frames, .comma => some (wantName frames ((name, value) :: done))
  | .members done name :: frames, .rightBrace =>
    some (complete frames (.object ((name, value) :: done).reverse))
  | _, _ => none

def step? : Progress → Token → Option Progress
  | wantValue frames, token => begin? frames token
  | wantItem frames, .rightBracket => some (complete frames (.array []))
  | wantItem frames, token => begin? (.items [] :: frames) token
  | wantName frames [], .rightBrace => some (complete frames (.object []))
  | wantName frames done, .string name => some (wantColon frames done name)
  | wantColon frames done name, .colon => some (wantValue (.members done name :: frames))
  | complete frames value, token => continue? value frames token
  | _, _ => none

def finish? : Progress → Option Json
  | complete [] value => some value
  | _ => none

end Progress

def ofTokens? (tokens : List Token) : Option Json :=
  (tokens.foldlM Progress.step? (.wantValue [])).bind Progress.finish?

/-- The value that a text denotes, if it is one JSON value with nothing around it but blanks. -/
def read? (text : String) : Option Json :=
  (Token.scan? text.toList).bind ofTokens?

/-- A constant of an enumeration: its name, or an object whose only member has that name and the
value null. -/
def constant? : Json → Option String
  | .string name => some name
  | .object [(name, .null)] => some name
  | _ => none

end Json
end CredentialSigning
