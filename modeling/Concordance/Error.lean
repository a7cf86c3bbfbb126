import Concordance.Json.Token
import Concordance.Text.Quoted

/-!
# Errors

The causes for which a command fails, and the text that reports each (`SearchError.message`).
-/

namespace Concordance

/-- Why a file could not be read or written. -/
inductive FileError where
  | notFound
  | notDirectory
  | isDirectory
  | alreadyExists
  | nameTooLong
  | nulInName
  | permissionDenied
  | storageFull
  | notUtf8
  deriving DecidableEq, Repr, Inhabited

def FileError.message : FileError → String
  | notFound => "No such file or directory (os error 2)"
  | notDirectory => "Not a directory (os error 20)"
  | isDirectory => "Is a directory (os error 21)"
  | alreadyExists => "File exists (os error 17)"
  | nameTooLong => "File name too long (os error 36)"
  | nulInName => "file name contained an unexpected NUL byte"
  | permissionDenied => "Permission denied (os error 13)"
  | storageFull => "No space left on device (os error 28)"
  | notUtf8 => "stream did not contain valid UTF-8"

/-- A node of a snapshot whose character does not belong where the node stands. -/
inductive Mislabelling where
  | root (label : Char)
  /-- A child has another character than its key, or none. -/
  | child (key : Char) (label : Option Char)
  deriving DecidableEq, Repr, Inhabited

def Mislabelling.message : Mislabelling → String
  | root label => "root node has character " ++ Text.quoteChar label
  | child key none => "child under key " ++ Text.quoteChar key ++ " has character None"
  | child key (some label) =>
    "child under key " ++ Text.quoteChar key ++ " has character Some(" ++
      Text.quoteChar label ++ ")"

inductive SearchError where
  /-- A part of a query has a character that no query has. -/
  | invalidChunk (chunk : String)
  /-- The parts between two parentheses are neither one operand nor two with an operator
  between them. -/
  | invalidClause (parts : List String)
  | unclosedParenthesis
  | unexpectedClosing
  /-- The query has no operand. -/
  | emptyQuery
  | notIndexed (word : String)
  | invalidDocId (raw : String)
  | tooFewArguments (args : List String)
  /-- The text of a snapshot is not a record. -/
  | malformed (fault : Json.Fault)
  | mislabelled (m : Mislabelling)
  | unknownCommand (name : String)
  | file (cause : FileError)
  deriving DecidableEq, Repr, Inhabited

def Json.Fault.message : Json.Fault → String
  | eof => "the text ends inside a value"
  | syntactic => "the text is not JSON"
  | data => "the value has not the expected shape"

def SearchError.message : SearchError → String
  | invalidChunk chunk => "SEARCH_QUERY_INVALID_CHUNK(" ++ chunk ++ ")"
  | invalidClause parts => "SEARCH_QUERY_INVALID_CLAUSE([" ++ ", ".intercalate parts ++ "])"
  | unclosedParenthesis => "SEARCH_QUERY_UNCLOSED_PAREN"
  | unexpectedClosing => "SEARCH_QUERY_UNEXPECTED_RPAREN"
  | emptyQuery => "SEARCH_QUERY_UNKNOWN_ERROR"
  | notIndexed word => "SEARCH_QUERY_TOKEN_NOT_FOUND(" ++ word ++ ")"
  | invalidDocId raw => "SEARCH_INDEX_INVALID_DOC_ID(" ++ raw ++ ")"
  | tooFewArguments args => "SEARCH_TOO_FEW_ARGS(" ++ Text.quoteList args ++ ")"
  | malformed fault => "SEARCH_PARSE_FAILED(" ++ fault.message ++ ")"
  | mislabelled m => "SEARCH_PARSE_FAILED(" ++ m.message ++ ")"
  | unknownCommand name => "COMMAND_NOT_FOUND(" ++ name ++ ")"
  | file cause => "SEARCH_IO_ERROR(" ++ cause.message ++ ")"

end Concordance
