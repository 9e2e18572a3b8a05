import BatchRun.Run.Parameters
import BatchRun.Text.Percent

/-!
# Connections

Who runs what where: keys, application, role, region and workspace.

Every field may hold placeholders such as `${NAME}`, which are replaced by what
a lookup gives for the name, or by nothing. What is put in is not looked at
again. Without an access key and its secret, requests are sent unsigned.

## Main definitions

* `Connection`: The fields of a connection.
* `Connection.expandChars`: A text with its placeholders replaced.
* `Connection.expand`: A connection with all of them replaced.
* `Connection.defaults`, `Connection.credentials`: What a connection gives to
  runs and to requests.
* `Credentials.shown`: Credentials in a log, without their secrets.
-/

namespace BatchRun

/-- The keys that requests are signed with. -/
structure Credentials where
  accessKey : String
  secretKey : String
  sessionToken : Option String
  deriving DecidableEq

namespace Credentials

/-- Whether a character would not be visible in a log: a control, a format
    character, a mark that combines with the one before, or a space other
    than the plain one. -/
def isInvisible (c : Char) : Bool :=
  let within := fun (low high : Nat) => low ≤ c.toNat && c.toNat ≤ high
  within 0 0x1F || within 0x7F 0xA0 || within 0xAD 0xAD || within 0x300 0x36F ||
    within 0x483 0x489 || within 0x591 0x5BD || within 0x600 0x605 || within 0x610 0x61A ||
    within 0x61C 0x61C || within 0x64B 0x65F || within 0x1680 0x1680 || within 0x180B 0x180F ||
    within 0x1AB0 0x1ACE || within 0x1DC0 0x1DFF || within 0x2000 0x200F ||
    within 0x2028 0x202F || within 0x205F 0x206F || within 0x20D0 0x20F0 ||
    within 0x302A 0x302F || within 0x3000 0x3000 || within 0x3099 0x309A ||
    within 0xE000 0xF8FF || within 0xFE00 0xFE0F || within 0xFE20 0xFE2F ||
    within 0xFEFF 0xFEFF || within 0xFFF0 0xFFFB || within 0xFFFE 0xFFFF ||
    within 0xE0000 0x10FFFF

/-- A character inside a quoted text of a log. -/
def quotedChar (c : Char) : List Char :=
  if c = '"' then ['\\', '"']
  else if c = '\\' then ['\\', '\\']
  else if c = '\n' then ['\\', 'n']
  else if c = '\r' then ['\\', 'r']
  else if c = '\t' then ['\\', 't']
  else if c.toNat = 0 then ['\\', '0']
  else if isInvisible c then
    ['\\', 'u', '\x7b'] ++ (Hex.ofNat c.toNat).toList ++ ['\x7d']
  else [c]

/-- A text in quotes. -/
def quoted (text : String) : String :=
  String.ofList ('"' :: (text.toList.flatMap quotedChar ++ ['"']))

/-- Credentials in a log, without their secrets. -/
def shown (credentials : Credentials) : String :=
  let token := match credentials.sessionToken with
    | some _ => "Some(\"<redacted>\")"
    | none => "None"
  "AwsCredentials \x7b access_key_id: " ++ quoted credentials.accessKey ++
    ", secret_access_key: \"<redacted>\", session_token: " ++ token ++ " \x7d"

end Credentials

/-- The fields of a connection. -/
structure Connection where
  accessKey : String
  secretKey : String
  sessionToken : String
  applicationId : String
  executionRole : String
  region : String
  workspace : String
  deriving DecidableEq

namespace Connection

/-- A text with its placeholders replaced. A placeholder has a name of at
    least one character, which ends at the first closing brace. -/
def expandChars (lookup : String → Option String) : List Char → List Char
  | [] => []
  | [c] => [c]
  | c :: d :: rest =>
    if c = '$' ∧ d = '\x7b' then
      match _h : Text.cutAtFirst '\x7d' rest with
      | some (name, after) =>
        if name.isEmpty then c :: expandChars lookup (d :: rest)
        else ((lookup (String.ofList name)).getD "").toList ++ expandChars lookup after
      | none => c :: expandChars lookup (d :: rest)
    else c :: expandChars lookup (d :: rest)
  termination_by text => text.length
  decreasing_by
    · simp
    · have := congrArg List.length (Text.eq_of_cutAtFirst _h)
      simp only [List.length_append, List.length_cons] at this ⊢
      omega
    · simp
    · simp

/-- A field with its placeholders replaced. -/
def expandText (lookup : String → Option String) (text : String) : String :=
  String.ofList (expandChars lookup (Text.trim text).toList)

/-- A connection with the placeholders in every field replaced. -/
def expand (lookup : String → Option String) (connection : Connection) : Connection :=
  { accessKey := expandText lookup connection.accessKey
    secretKey := expandText lookup connection.secretKey
    sessionToken := expandText lookup connection.sessionToken
    applicationId := expandText lookup connection.applicationId
    executionRole := expandText lookup connection.executionRole
    region := expandText lookup connection.region
    workspace := expandText lookup connection.workspace }

/-- What a connection gives to every run. -/
def defaults (connection : Connection) : ConnectionDefaults :=
  { applicationId := connection.applicationId
    executionRole := connection.executionRole
    region := connection.region
    workspace := if connection.workspace.isEmpty then none else some connection.workspace }

/-- The keys of a connection, if it has both of them. -/
def credentials (connection : Connection) : Option Credentials :=
  if connection.accessKey.isEmpty || connection.secretKey.isEmpty then none
  else some
    { accessKey := connection.accessKey
      secretKey := connection.secretKey
      sessionToken :=
        if connection.sessionToken.isEmpty then none else some connection.sessionToken }

end Connection

end BatchRun
