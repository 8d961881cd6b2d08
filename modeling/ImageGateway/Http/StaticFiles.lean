import ImageGateway.Http.MediaType
import ImageGateway.Http.Message
import ImageGateway.Http.Percent
import ImageGateway.Storage.FileTree

/-!
# Files served from a directory

The path of a request names a file below a directory. It is decoded first, and no path leads out of
the directory. A path to a directory is answered with the file `index.html` in it if it ends in a
slash, and is redirected to the path with one otherwise.
-/

namespace ImageGateway.Http.StaticFiles

open Storage (FilePath FileTree Fault)

/-- The names on the way to a file. The path is decoded first; a decoded path must neither start at
the top nor climb. -/
def names? (path : String) : Option (List String) := do
  let encoded := path.toList.dropWhile (· = '/')
  let decoded ← Bytes.toString? (Percent.decode (Bytes.ofChars encoded))
  let p : FilePath := ⟨decoded⟩
  if p.isAbsolute || p.names.contains ".." then none else some p.names

/-- The path of a file below a directory. -/
def below (dir : FilePath) (names : List String) : FilePath := names.foldl FilePath.join dir

/-- Whether the path of a request ends in a slash. -/
def endsInSlash (path : String) : Bool := path.toList.getLast? == some '/'

/-- The path of a request with a slash at its end, and its query. -/
def withSlash (path : String) (query : Option String) : String :=
  path ++ "/" ++ match query with
    | some q => "?" ++ q
    | none => ""

/-- The response when a file cannot be read. -/
def unreadable : Fault → Response
  | .notFound => .empty 404
  | .notADirectory => .empty 404
  | _ => .empty 500

/-- The response with the file that a path leads to. -/
def fileAt (t : FileTree) (file : FilePath) : Response :=
  match t.readFile file with
  | .ok content => .typed 200 (MediaType.ofPath file) content
  | .error fault => unreadable fault

/-- The response to a request for the file with the given path. -/
def get (t : FileTree) (dir : FilePath) (path : String) (query : Option String) : Response :=
  match names? path with
  | none => .empty 404
  | some names =>
    let file := below dir names
    if t.isDirectory file then
      if endsInSlash path then fileAt t (file.join "index.html")
      else ⟨307, [("location", withSlash path query)], []⟩
    else fileAt t file

/-- The methods that files answer to. -/
def allowed : String := "GET,HEAD"

/-- The response to a request for a path below a directory. -/
def serve (t : FileTree) (dir : FilePath) (method path : String) (query : Option String) :
    Response :=
  if method = "GET" then get t dir path query
  else if method = "HEAD" then (get t dir path query).withoutBody
  else .notAllowed allowed

end ImageGateway.Http.StaticFiles
