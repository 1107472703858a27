import Doctype.Cursor

/-!
The steps of a cursor and what they answer.
-/

namespace Doctype.Cursor

inductive Step
  | skipBlanks
  | requireBlanks (context : Text)
  | eat (mark : Text)
  | eatKeyword (keyword : Text)
  | expectChar (expected : Char)
  | name
  | nmtoken
  | quoted
  | externalId (publicAlone : Bool)
  | seek (n : Nat)

/-- What a step answers: that it is done, the bytes it skipped, what it read, that nothing was
there, or an error. -/
inductive Answer
  | done
  | bytes (n : Nat)
  | text (t : Text)
  | id (id : ExternalId)
  | missing
  | error (e : Lexer.Error)

def Answer.isFailure : Answer → Bool
  | missing => true
  | error _ => true
  | _ => false

def Answer.ofRead {α : Type} (write : α → Answer) : Except Lexer.Error α → Answer
  | .ok a => write a
  | .error e => error e

def Answer.ofText? : Option Text → Answer
  | some t => text t
  | none => missing

def Answer.ofFound (found : Bool) : Answer :=
  if found then done else missing

/-- What a step answers, and where it leaves the cursor. -/
def perform (c : Cursor) : Step → Answer × Cursor
  | .skipBlanks => c.skipBlanks.map .bytes id
  | .requireBlanks context =>
    (c.read (Lexer.requireBlanks context)).map (.ofRead fun _ => .done) id
  | .eat mark => (c.eat mark).map .ofFound id
  | .eatKeyword keyword => (c.eatKeyword keyword).map .ofFound id
  | .expectChar expected => (c.read (Lexer.char expected)).map (.ofRead fun _ => .done) id
  | .name => c.name.map .ofText? id
  | .nmtoken => c.nmtoken.map .ofText? id
  | .quoted => (c.read Lexer.quoted).map (.ofRead .text) id
  | .externalId publicAlone => (c.read (ExternalId.read publicAlone)).map (.ofRead .id) id
  | .seek n => (.done, c.seek n)

end Doctype.Cursor
