import BuildServer.Config.Project
import BuildServer.Proofs.Json.Values
import BuildServer.Protocol.Params
import BuildServer.Protocol.Results

namespace BuildServer

open Json

namespace Json

theorem reread_int64 (n : Int64) : reread (.int n.toInt) = .ok (.int n.toInt) := by
  have hlow := n.le_toInt
  have hhigh := n.toInt_lt
  exact reread_of_bounds (by omega) (by omega)

theorem int64_int (n : Int64) : int64 (docOf (Json.int n.toInt)) = .ok n.toInt := by
  have hlow := n.le_toInt
  have hhigh := n.toInt_lt
  have hbounds : -0x8000000000000000 ≤ n.toInt ∧ n.toInt ≤ 0x7FFFFFFFFFFFFFFF := by omega
  simp only [Json.int, docOf, reread_int64, int64, integer, lift, bind, Except.bind, if_pos hbounds]

end Json

theorem RequestId.reader_int (n : Int64) :
    RequestId.reader (docOf (RequestId.int n.toInt).toJson) = .ok (.int n.toInt) := by
  have hlow := n.le_toInt
  have hhigh := n.toInt_lt
  have hbounds : -0x8000000000000000 ≤ n.toInt ∧ n.toInt ≤ 0x7FFFFFFFFFFFFFFF := by omega
  simp only [RequestId.reader, RequestId.readWithin, RequestId.toJson, Json.int, docOf, reread_int64, any,
    Doc.value, lift, Except.map, RequestId.ofJson?, if_pos hbounds, bind, Except.bind]
  rfl

theorem CompilerOptions.read_toJson (o : CompilerOptions) :
    CompilerOptions.shape.read (docOf o.toJson) = .ok o := by
  obtain ⟨options, directory⟩ := o
  cases directory with
  | none => exact read_object (readMembers_written rfl rfl (list_strings options) rfl) rfl
  | some directory =>
    exact read_object (readMembers_written rfl rfl (list_strings options) <|
      readMembers_written (b := some directory) rfl rfl rfl rfl) rfl

theorem BuildTarget.read_toJson (t : BuildTarget) : BuildTarget.shape.read (docOf t.toJson) = .ok t :=
  read_object (readMembers_written (b := t.uri) rfl rfl rfl <|
    readMembers_written (b := t.displayName) rfl rfl rfl <|
    readMembers_written rfl rfl (list_strings t.dependencies) rfl) rfl

theorem read_uri (name u : String) : (uriShape name).read (docOf (Results.uri u)) = .ok u :=
  read_object (readMembers_written (b := u) rfl rfl rfl rfl) rfl

theorem ResponseError.read_toJson (code : Int64) (message : String) :
    ResponseError.shape.read (docOf (ResponseError.toJson ⟨code.toInt, message⟩)) = .ok ⟨code.toInt, message⟩ :=
  read_object (readMembers_written rfl rfl (int64_int code) <|
    readMembers_written (b := message) rfl rfl rfl rfl) rfl

theorem ProjectConfig.read_toJson (c : ProjectConfig) : ProjectConfig.shape.read (docOf c.toJson) = .ok c :=
  read_object (readMembers_written (b := c.name) rfl rfl rfl <|
    readMembers_written rfl rfl (list_strings c.argv) <|
    readMembers_written (b := c.version) rfl rfl rfl <|
    readMembers_written (b := c.bspVersion) rfl rfl rfl <|
    readMembers_written rfl rfl (list_strings c.languages) <|
    readMembers_written rfl rfl (list_strings c.activeSchemes) rfl) rfl

/-- Whatever strings, lists and integers of 64 bits they hold, all of them are decoded from their text as they
were. -/
theorem decoded_as_written :
    (∀ s : String, decodeText RequestId.reader (RequestId.str s).toJson.bytes = .ok (.str s)) ∧
    (∀ n : Int64, decodeText RequestId.reader (RequestId.int n.toInt).toJson.bytes = .ok (.int n.toInt)) ∧
    (∀ o : CompilerOptions, decodeText CompilerOptions.shape.read o.toJson.bytes = .ok o) ∧
    (∀ t : BuildTarget, decodeText BuildTarget.shape.read t.toJson.bytes = .ok t) ∧
    (∀ u : String, decodeText Params.target (Results.uri u).bytes = .ok u) ∧
    (∀ u : String, decodeText Params.document (Results.uri u).bytes = .ok u) ∧
    (∀ (code : Int64) (message : String),
      decodeText ResponseError.shape.read (ResponseError.toJson ⟨code.toInt, message⟩).bytes =
        .ok ⟨code.toInt, message⟩) ∧
    ∀ c : ProjectConfig, ProjectConfig.parse c.toJson.render = .ok c :=
  ⟨fun _ => decodeText_bytes rfl, fun n => decodeText_bytes (RequestId.reader_int n),
    fun o => decodeText_bytes o.read_toJson, fun t => decodeText_bytes t.read_toJson,
    fun u => decodeText_bytes (read_uri _ u), fun u => decodeText_bytes (read_uri _ u),
    fun code message => decodeText_bytes (ResponseError.read_toJson code message),
    fun c => decodeText_render c.read_toJson⟩

end BuildServer
