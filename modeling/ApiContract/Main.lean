import ApiContract.CommandLine.Run
import ApiContract.Pattern.Search

namespace ApiContract.CommandLine

def read (path : String) : IO (Except String String) := do
  try
    let text ← IO.FS.readFile path
    return .ok text
  catch e =>
    return .error (match e with
      | .noFileOrDirectory .. => "No such file or directory (os error 2)"
      | e => toString e)

end ApiContract.CommandLine

open ApiContract.CommandLine in
def main (args : List String) : IO UInt32 := do
  let request := Request.ofArguments args
  let contents ← request.files.mapM fun path => return (path, ← read path)
  let files : Files := fun path => (contents.lookup path).getD (.error "not read")
  -- Patterns are read by the engine `Pattern.linear`, the only one at hand.
  let result := request.run files
  (← IO.getStdout).putStr result.stdout
  (← IO.getStderr).putStr result.stderr
  return result.exitCode.toUInt32
