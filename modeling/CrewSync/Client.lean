import CrewSync.Store.Attachments

/-! Files at the command line client: the name that it gives to a file it uploads (`src/client/mapping.rs`), and the
    path that it writes a downloaded file to (`src/client/render.rs`). -/

namespace CrewSync.Client

/-! ### Paths -/

/-- `std::path::Component`, on Unix. -/
inductive Component where
  | rootDir | curDir | parentDir
  | normal (name : List Char)
  deriving DecidableEq

/-- What a part of a path stands for; an empty part and a `.` inside the path stand for nothing. -/
def component : List Char → Option Component
  | [] => none
  | ['.'] => none
  | ['.', '.'] => some .parentDir
  | name => some (.normal name)

/-- `Path::components`. -/
def components (path : String) : List Component :=
  let parts := path.toList.splitOn '/'
  let start := if path.toList.head? = some '/' then [.rootDir] else if parts.head? = some ['.'] then [.curDir] else []
  start ++ parts.filterMap component

/-- `Path::file_name`: the last component, if it is a name. -/
def fileName (path : String) : Option String :=
  match (components path).getLast? with
  | some (.normal name) => some (String.ofList name)
  | _ => none

/-! ### Files -/

/-- The `filename` of `attachment_json`. -/
def uploadName (path : String) : String := (fileName path).getD "file"

/-- The `data_base64` of an answer of `get_attachment`. -/
def dataBase64 (c : AttachmentContent) : String := String.ofList (Base64.encode c.data)

/-- `client download`: the path and the bytes that it writes. -/
def download (out : Option String) (filename dataBase64 : String) : Except String (String × List UInt8) :=
  match Base64.decode dataBase64.toList with
  | none => .error "server returned invalid base64"
  | some data => .ok (out.getD filename, data)

end CrewSync.Client
