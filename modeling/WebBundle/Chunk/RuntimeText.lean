import WebBundle.Json.Basic
import WebBundle.Text.Substring

/-!
# The text of the runtime

The runtime is the script that installs chunks, starts modules and loads chunks on demand. Its
text is fixed but for three holes: the public path, the table of files by chunk name, and the
queue on which chunks register. The holes are filled one after the other.
-/

namespace WebBundle.Chunk

/-- The expression on which chunks register. -/
def queue : String := "self.shardChunks"

def runtimeLines : List String :=
  ["(function () \x7b",
   "  var publicPath = __PUBLIC_PATH__;",
   "  var chunkFiles = __CHUNK_FILES__;",
   "  var definitions = \x7b\x7d;",
   "  var cache = \x7b\x7d;",
   "  var installed = \x7b\x7d;",
   "  var loading = \x7b\x7d;",
   "  var deferred = [];",
   "",
   "  function load(key) \x7b",
   "    if (cache[key]) return cache[key].exports;",
   "    var definition = definitions[key];",
   "    if (!definition) throw new Error(\"shard: unknown module \" + key);",
   "    var module = (cache[key] = \x7b exports: \x7b\x7d \x7d);",
   "    var deps = definition[1];",
   "    definition[0].call(module.exports, module, module.exports, function (specifier) \x7b",
   "      var target = deps[specifier];",
   "      if (Array.isArray(target)) \x7b",
   "        return loadAsync(target.slice(0, -1)).then(function () \x7b",
   "          return load(target[target.length - 1]);",
   "        \x7d);",
   "      \x7d",
   "      return load(target);",
   "    \x7d);",
   "    return module.exports;",
   "  \x7d",
   "",
   "  function fetchChunk(name) \x7b",
   "    if (installed[name]) return Promise.resolve();",
   "    if (loading[name]) return loading[name].promise;",
   "    var entry = (loading[name] = \x7b\x7d);",
   "    entry.promise = new Promise(function (resolve, reject) \x7b",
   "      entry.resolve = resolve;",
   "      var script = document.createElement(\"script\");",
   "      script.src = publicPath + chunkFiles[name];",
   "      script.onerror = function () \x7b",
   "        delete loading[name];",
   "        reject(new Error(\"shard: failed to load chunk \" + name));",
   "      \x7d;",
   "      document.head.appendChild(script);",
   "    \x7d);",
   "    return entry.promise;",
   "  \x7d",
   "",
   "  function loadAsync(names) \x7b",
   "    return Promise.all(names.map(fetchChunk));",
   "  \x7d",
   "",
   "  function runDeferred() \x7b",
   "    deferred = deferred.filter(function (item) \x7b",
   "      var ready = item[1].every(function (name) \x7b return installed[name]; \x7d);",
   "      if (ready) item[0].forEach(load);",
   "      return !ready;",
   "    \x7d);",
   "  \x7d",
   "",
   "  function install(data) \x7b",
   "    var modules = data[1];",
   "    for (var key in modules) definitions[key] = modules[key];",
   "    data[0].forEach(function (name) \x7b",
   "      installed[name] = true;",
   "      if (loading[name]) \x7b",
   "        loading[name].resolve();",
   "        delete loading[name];",
   "      \x7d",
   "    \x7d);",
   "    if (data[2]) deferred.push([data[2], data[3] || []]);",
   "    runDeferred();",
   "  \x7d",
   "",
   "  var queue = (__QUEUE__ = __QUEUE__ || []);",
   "  queue.forEach(install);",
   "  queue.push = install;",
   "\x7d)();"]

def runtimeTemplate : List Char := runtimeLines.flatMap fun line => line.toList ++ ['\n']

/-- The file table as an object literal, in the order of the list. -/
def fileTable (files : List (String × String)) : Json :=
  .object (files.map fun (name, file) => (name, .string file))

/-- The runtime for a public path and a file for every chunk that is loaded on demand. -/
def runtimeText (publicPath : String) (files : List (String × String)) : String :=
  let text := Text.replaceAll "__PUBLIC_PATH__".toList (Json.quote publicPath.toList)
    runtimeTemplate
  let text := Text.replaceAll "__CHUNK_FILES__".toList (fileTable files).compact text
  String.ofList (Text.replaceAll "__QUEUE__".toList queue.toList text)

end WebBundle.Chunk
