import Reckon.Token
import Reckon.Token.Piece
import Reckon.Binary64.Writing
import Reckon.Text.Quoted
import Reckon.Log

/-!
# From text to tokens

`tokenize` reads the pieces of a text in order and stops at the first fault. A run that is no
numeral is a fault in both modes; a character that is no part of any token is a fault in strict
mode and is skipped, with a warning, in lenient mode.
-/

namespace Reckon

inductive TokenError
  | unknownCharacter (c : Char)
  | malformedNumber (run : Text)
  deriving DecidableEq

namespace TokenError

def message : TokenError → Text
  | unknownCharacter c => "Unknown character: ".toList ++ [c]
  | malformedNumber run => "Error parsing number: ".toList ++ run

def description : TokenError → Text
  | unknownCharacter _ => "Unknown character".toList
  | malformedNumber _ => "Error parsing number".toList

/-- What led to the fault, outermost first. -/
def causes : TokenError → List Text
  | unknownCharacter _ => []
  | malformedNumber _ => ["invalid float literal".toList]

end TokenError

/-- The number that a run stands for, rounded to the nearest machine number. -/
def readNumber? (run : Text) : Option Binary64 :=
  (Decimal.ofRun? run).map Binary64.ofDecimal

/-- The tokens of the pieces, or the first fault among them. -/
def tokensOfPieces (strict : Bool) : List Piece → Except TokenError (List (Token Binary64))
  | [] => .ok []
  | .run t :: rest =>
    match readNumber? t with
    | none => .error (.malformedNumber t)
    | some x => (tokensOfPieces strict rest).map (.number x :: ·)
  | .operator op :: rest => (tokensOfPieces strict rest).map (.operator op :: ·)
  | .leftParen :: rest => (tokensOfPieces strict rest).map (.leftParen :: ·)
  | .rightParen :: rest => (tokensOfPieces strict rest).map (.rightParen :: ·)
  | .unknown c :: rest =>
    if strict then .error (.unknownCharacter c) else tokensOfPieces strict rest

/-- The characters that lenient reading skips: the unknown ones before the first malformed run. -/
def skippedCharacters : List Piece → List Char
  | [] => []
  | .run t :: rest => if (readNumber? t).isSome then skippedCharacters rest else []
  | .unknown c :: rest => c :: skippedCharacters rest
  | _ :: rest => skippedCharacters rest

def tokenize (strict : Bool) (source : Text) : Except TokenError (List (Token Binary64)) :=
  tokensOfPieces strict (pieces (normalize source))

def skipWarning (c : Char) : LogRecord :=
  ⟨.warn, "skipping unrecognized character ".toList ++ Text.quotedChar c⟩

/-- What is noted while a text is read: its normal form, a warning for each skipped character, and
the tokens if there was no fault. -/
def tokenizeLog (strict : Bool) (source : Text) : List LogRecord :=
  let normal := normalize source
  ⟨.trace, "normalized ".toList ++ Text.quoted source ++ " to ".toList ++ Text.quoted normal⟩
    :: (if strict then [] else (skippedCharacters (pieces normal)).map skipWarning)
    ++ match tokenize strict source with
      | .error _ => []
      | .ok tokens => [⟨.debug, "tokens: ".toList ++ Token.listName Binary64.listText tokens⟩]

end Reckon
