import UnixSystems.CStrings

/-! The request handling of http-server.c: one pass of the server's loop on a request line
that has been split into its three tokens. The file system and the mdb-lookup server are
seen through what they answer. `none` is a read that never returns. -/
namespace UnixSystems.HttpModel
open CStrings

structure Request where
  method : Str
  uri : Str
  httpVersion : Str

/-- What the server meets while it handles a request: the text that the mdb-lookup server
sends in answer to the query, the files, and the address of the client. -/
structure World where
  answer : Str
  isDir : Str → Bool
  contents : Str → Option Str
  clientAddr : Str

/-- What the server sends to the client, call by call, the query it sends to the mdb-lookup
server, the chunks it reads from there, and its log. -/
structure Reply where
  sent : List Str
  query : Option Str
  relayed : List Str
  log : Str

/-! ## Texts -/

/-- Through a buffer of 4096 characters. -/
def sendHtml (s : Str) : Str := s.take 4095

def form : Str :=
  ("<h1>mdb-lookup</h1>\n" ++ "<p>\n" ++ "<form method=GET action=/mdb-lookup>\n" ++
    "lookup: <input type=text name=key>\n" ++ "<input type=submit>\n" ++ "</form>\n" ++
    "<p>\n").toList

def sendForm : Str := sendHtml form

/-- Through a buffer of 100 characters, as is `sendErr`. -/
def sendHttpHeader (s : Str) : Str := ("HTTP/1.0 ".toList ++ s ++ "\r\n\r\n".toList).take 99

def sendErr (s : Str) : Str :=
  ("<html><body><h1>".toList ++ s ++ "</h1></body></html>".toList).take 99

def logToStdOut (clientAddr : Str) (req : Request) (s : Str) : Str :=
  clientAddr ++ " \"".toList ++ req.method ++ " ".toList ++ req.uri ++ " ".toList ++
    req.httpVersion ++ "\" ".toList ++ s ++ "\n".toList

/-! ## Branches -/

def upDir : Str := ['/', '.', '.', '/']

def upDirEnd : Str := ['/', '.', '.']

/-- The test for 403. -/
def climbs (uri : Str) : Bool := (strstr uri upDir).isSome || strrchr uri '/' = some upDirEnd

def lookupUri : Str := "/mdb-lookup".toList

def lookupKey : Str := "/mdb-lookup?key=".toList

inductive Route where
  | notImplemented
  | badRequest
  | forbidden
  | form
  | lookup (query : Str)
  | ignored
  | file
deriving DecidableEq

/-- The part of the URI after its last `=`. -/
def queryOf (uri : Str) : Str := ((strrchr uri '=').getD []).tail

/-- Which branch takes the request. A URI that has the lookup key elsewhere than at its
beginning is taken by none. -/
def route (method uri : Str) : Route :=
  if method ≠ "GET".toList then .notImplemented
  else if uri.head? ≠ some '/' then .badRequest
  else if climbs uri then .forbidden
  else if uri = lookupUri then .form
  else if (strstr uri lookupKey).isSome then
    if lookupKey.isPrefixOf uri then .lookup (queryOf uri) else .ignored
  else .file

def filePath (webRoot uri : Str) (isDir : Str → Bool) : Str :=
  let filePath := webRoot ++ uri
  if isDir filePath then
    if filePath.getLast? = some '/' then filePath ++ "index.html".toList
    else filePath ++ "/index.html".toList
  else filePath

/-- The loop that reads an answer in chunks of at most 999 characters until a chunk is a
single newline: the chunks before that one, and what is left unread. Each round reads at
least one character, so there are no more rounds than characters. -/
def readReply : ℕ → Str → Option (List Str × Str)
  | 0, _ => none
  | rounds + 1, response =>
    match fgets 1000 response with
    | none => none
    | some (temp, response) =>
      if temp = ['\n'] then some ([], response)
      else (readReply rounds response).map fun (chunks, rest) => (temp :: chunks, rest)

def relay (response : Str) : Option (List Str × Str) := readReply response.length response

def sendRow (temp : Str) : List Str := [sendHtml "<tr><td>".toList, sendHtml temp]

def lookupPage (chunks : List Str) : List Str :=
  [sendHttpHeader "200 OK".toList, sendHtml "<html><body>".toList, sendForm,
    sendHtml "<p><table border>\n".toList] ++ chunks.flatMap sendRow ++
    [sendHtml "</table></body></html>".toList]

def lookupLog (clientAddr : Str) (req : Request) (query : Str) : Str :=
  "looking up [".toList ++ query ++ "]: ".toList ++ clientAddr ++ " \"".toList ++ req.method ++
    " ".toList ++ req.uri ++ " ".toList ++ req.httpVersion ++ "\" 200 OK\n".toList

def refuse (clientAddr : Str) (req : Request) (status : Str) : Reply :=
  ⟨[sendHttpHeader status, sendErr status], none, [], logToStdOut clientAddr req status⟩

def sendFile (webRoot : Str) (world : World) (req : Request) : Reply :=
  match world.contents (filePath webRoot req.uri world.isDir) with
  | some bytes =>
    ⟨sendHttpHeader "200 OK".toList :: bytes.toChunks 4096, none, [],
      logToStdOut world.clientAddr req "200 OK".toList⟩
  | none => refuse world.clientAddr req "404 Not Found".toList

/-- One request. `unread` is what has come from the mdb-lookup server and not been read. -/
def handle (webRoot : Str) (world : World) (unread : Str) (req : Request) : Option (Reply × Str) :=
  match route req.method req.uri with
  | .notImplemented => some (refuse world.clientAddr req "501 Not Implemented".toList, unread)
  | .badRequest => some (refuse world.clientAddr req "400 Bad Request".toList, unread)
  | .forbidden => some (refuse world.clientAddr req "403 Forbidden".toList, unread)
  | .form =>
    some (⟨[sendHttpHeader "200 OK".toList, sendForm], none, [],
      logToStdOut world.clientAddr req " 200 OK".toList⟩, unread)
  | .lookup query =>
    (relay (unread ++ world.answer)).map fun (chunks, rest) =>
      (⟨lookupPage chunks, some (query ++ ['\n']), chunks,
        lookupLog world.clientAddr req query⟩, rest)
  | .ignored => some (⟨[], none, [], []⟩, unread)
  | .file => some (sendFile webRoot world req, unread)

/-- The requests of a run of the server. After a read that never returns there are no more. -/
def serve (webRoot : Str) : Str → List (Request × World) → List (Option (Reply × Str))
  | _, [] => []
  | unread, (req, world) :: more =>
    match handle webRoot world unread req with
    | none => [none]
    | some (reply, rest) => some (reply, rest) :: serve webRoot rest more

end UnixSystems.HttpModel
