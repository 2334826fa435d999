import ServiceLint.Disk.Basic

/-!
# Finding the configuration file (`config.loader`)

The configuration file is looked for in a directory and then in each one that contains it, up to the
root. Of several files in one directory the first name of a fixed list counts.
-/
namespace ServiceLint.Config

/-- The names of configuration files, the preferred one first (`CONFIG_FILES`). -/
def fileNames : List String :=
  [".mqtt-analyzer.yaml", ".mqtt-analyzer.yml", ".mqtt-analyzer.json", ".mqtt-analyzer.toml"]

/-- A directory and those that contain it, up to the root. -/
def upward (dir : Place) : List Place := (List.range (dir.length + 1)).reverse.map dir.take

def inDirectory? (isFile : Place → Bool) (dir : Place) : Option Place :=
  (fileNames.map fun name => dir ++ [name]).find? isFile

/-- The configuration file for a directory (`find_config`). -/
def discover? (isFile : Place → Bool) (dir : Place) : Option Place :=
  (upward dir).findSome? (inDirectory? isFile)

end ServiceLint.Config
