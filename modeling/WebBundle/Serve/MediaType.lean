import WebBundle.Path.Lexical

/-!
# Media types

The media type of a file is told by the extension of its name, whatever its case. Texts and scripts
are said to be in UTF-8.
-/

namespace WebBundle.Serve

/-- Media types with their extensions. -/
def mediaTypes : List (String × String) :=
  [("application/atom+xml", "atom"),
   ("application/epub+zip", "epub"),
   ("application/font-sfnt", "otf"),
   ("application/font-woff", "woff"),
   ("application/geo+json", "geojson"),
   ("application/gzip", "gz"),
   ("application/hta", "hta"),
   ("application/java-archive", "jar ear war"),
   ("application/javascript", "mjs"),
   ("application/json", "json"),
   ("application/json5", "json5"),
   ("application/ld+json", "jsonld"),
   ("application/mac-binhex40", "hqx"),
   ("application/manifest+json", "webmanifest"),
   ("application/msaccess", "accdb accde accdt ade adp"),
   ("application/msword", "doc dot wbk wiz"),
   ("application/octet-stream",
    "bin cab cur fla iso java mso msi msp lzh sea thn toc ttd u32 xsn"),
   ("application/ogg", "ogx"),
   ("application/oda", "oda"),
   ("application/pdf", "pdf"),
   ("application/pgp-signature", "asc sig"),
   ("application/pkcs10", "p10"),
   ("application/pkcs7-mime", "p7c p7m"),
   ("application/pkcs7-signature", "p7s"),
   ("application/pkix-cert", "cer"),
   ("application/pkix-crl", "crl"),
   ("application/postscript", "ai eps ps"),
   ("application/rdf+xml", "rdf"),
   ("application/rss+xml", "rss"),
   ("application/rtf", "rtf"),
   ("application/sql", "sql"),
   ("application/vnd.android.package-archive", "apk"),
   ("application/vnd.google-earth.kml+xml", "kml"),
   ("application/vnd.google-earth.kmz", "kmz"),
   ("application/vnd.ms-excel", "xla xlc xlm xls xlt xlw"),
   ("application/vnd.ms-fontobject", "eot"),
   ("application/vnd.ms-powerpoint", "pot ppa pps ppt"),
   ("application/vnd.oasis.opendocument.graphics", "odg"),
   ("application/vnd.oasis.opendocument.presentation", "odp"),
   ("application/vnd.oasis.opendocument.spreadsheet", "ods"),
   ("application/vnd.oasis.opendocument.text", "odt"),
   ("application/vnd.openxmlformats-officedocument.presentationml.presentation", "pptx"),
   ("application/vnd.openxmlformats-officedocument.presentationml.slideshow", "ppsx"),
   ("application/vnd.openxmlformats-officedocument.presentationml.template", "potx"),
   ("application/vnd.openxmlformats-officedocument.spreadsheetml.sheet", "xlsx"),
   ("application/vnd.openxmlformats-officedocument.spreadsheetml.template", "xltx"),
   ("application/vnd.openxmlformats-officedocument.wordprocessingml.document", "docx"),
   ("application/vnd.openxmlformats-officedocument.wordprocessingml.template", "dotx"),
   ("application/vnd.visio", "vsd vss vst vsw vsx vtx"),
   ("application/wasm", "wasm"),
   ("application/x-7z-compressed", "7z"),
   ("application/x-bittorrent", "torrent"),
   ("application/x-bzip", "bz"),
   ("application/x-bzip2", "bz2 boz"),
   ("application/x-compress", "z"),
   ("application/x-compressed", "tgz"),
   ("application/x-cpio", "cpio"),
   ("application/x-csh", "csh"),
   ("application/x-director", "dcr dir dxr"),
   ("application/x-dvi", "dvi"),
   ("application/x-gtar", "gtar"),
   ("application/x-hdf", "hdf"),
   ("application/x-java-applet", "class"),
   ("application/x-latex", "latex"),
   ("application/x-msaccess", "mdb"),
   ("application/x-msdownload", "dll"),
   ("application/x-pkcs12", "p12 pfx"),
   ("application/x-pkcs7-certificates", "p7b spc"),
   ("application/x-rar-compressed", "rar"),
   ("application/x-sh", "sh"),
   ("application/x-shar", "shar"),
   ("application/x-shockwave-flash", "swf"),
   ("application/x-stuffit", "sit"),
   ("application/x-tar", "tar"),
   ("application/x-tcl", "tcl"),
   ("application/x-tex", "tex"),
   ("application/x-texinfo", "texi texinfo"),
   ("application/x-troff", "roff t tr"),
   ("application/x-troff-man", "man"),
   ("application/x-x509-ca-cert", "crt der pem"),
   ("application/x-xz", "xz"),
   ("application/xaml+xml", "xaml"),
   ("application/xhtml+xml", "xht xhtml"),
   ("application/xml", "asa asax ascx ashx asmx aspx config filters"),
   ("application/zip", "zip"),
   ("audio/aac", "aac adts"),
   ("audio/ac3", "ac3"),
   ("audio/aiff", "aif aifc aiff cda"),
   ("audio/basic", "au snd"),
   ("audio/flac", "flac"),
   ("audio/m4a", "m4a"),
   ("audio/m4b", "m4b"),
   ("audio/m4p", "m4p"),
   ("audio/mid", "mid midi rmi"),
   ("audio/mpeg", "mp3 mpga"),
   ("audio/ogg", "oga ogg opus spx"),
   ("audio/wav", "wav wave"),
   ("audio/webm", "weba"),
   ("audio/x-matroska", "mka"),
   ("audio/x-mpegurl", "m3u m3u8"),
   ("audio/x-ms-wma", "wma"),
   ("audio/x-pn-realaudio", "ra ram"),
   ("font/collection", "ttc"),
   ("font/ttf", "ttf"),
   ("font/woff2", "woff2"),
   ("image/apng", "apng"),
   ("image/avif", "avif"),
   ("image/bmp", "bmp dib"),
   ("image/gif", "gif"),
   ("image/heic", "heic"),
   ("image/heif", "heif"),
   ("image/jpeg", "jpe jpeg jpg"),
   ("image/pict", "pct pic pict"),
   ("image/png", "png pnz"),
   ("image/svg+xml", "svg svgz"),
   ("image/tiff", "tif tiff"),
   ("image/vnd.adobe.photoshop", "psd"),
   ("image/webp", "webp"),
   ("image/x-cmu-raster", "ras"),
   ("image/x-icon", "ico"),
   ("image/x-portable-anymap", "pnm"),
   ("image/x-portable-bitmap", "pbm"),
   ("image/x-portable-graymap", "pgm"),
   ("image/x-portable-pixmap", "ppm"),
   ("image/x-rgb", "rgb"),
   ("image/x-xbitmap", "xbm"),
   ("image/x-xpixmap", "xpm"),
   ("image/x-xwindowdump", "xwd"),
   ("message/rfc822", "eml mht mhtml nws"),
   ("model/gltf-binary", "glb"),
   ("model/gltf+json", "gltf"),
   ("text/cache-manifest", "appcache manifest"),
   ("text/calendar", "ics ifb"),
   ("text/css", "css"),
   ("text/csv", "csv"),
   ("text/html", "htm html hxt shtml"),
   ("text/javascript", "js jsx"),
   ("text/markdown", "markdown md"),
   ("text/plain",
    "asm bas c cc cfg cmd cnf conf cpp cs csproj cxx def dsw h hpp hxx i idl in inc inl ini " ++
    "list log lst mak map mk odh odl reg rc rc2 rct s sln sol sor text tlh tli txt vb vcs vcproj"),
   ("text/richtext", "rtx"),
   ("text/scriptlet", "sct wsc"),
   ("text/sgml", "sgm sgml"),
   ("text/tab-separated-values", "tsv"),
   ("text/vbscript", "vbs"),
   ("text/vtt", "vtt"),
   ("text/x-component", "htc"),
   ("text/x-rust", "rs"),
   ("text/x-sass", "sass"),
   ("text/x-scss", "scss"),
   ("text/x-setext", "etx"),
   ("text/x-toml", "toml"),
   ("text/x-vcard", "vcf"),
   ("text/x-yaml", "yaml yml"),
   ("text/xml",
    "disco dtd mno rels resx settings snippet vsct vsixlangpack wsdl xml xsd xsf xsl xslt"),
   ("video/3gpp", "3gp 3gpp"),
   ("video/3gpp2", "3g2 3gp2"),
   ("video/mp4", "f4v mp4 mp4v"),
   ("video/mpeg", "m1v m2v mod mp2 mp2v mpa mpe mpeg mpg mpv2"),
   ("video/ogg", "ogv"),
   ("video/quicktime", "mov qt"),
   ("video/vnd.dlna.mpeg-tts", "m2t m2ts mts ts tts"),
   ("video/webm", "webm"),
   ("video/x-flv", "flv"),
   ("video/x-m4v", "m4v"),
   ("video/x-matroska", "mkv"),
   ("video/x-matroska-3d", "mk3d"),
   ("video/x-ms-asf", "asf asr asx"),
   ("video/x-ms-wmv", "wmv"),
   ("video/x-msvideo", "avi"),
   ("x-world/x-vrml", "flr wrl wrz xaf xof")]

/-- The media type of a file about which nothing is known. -/
def unknownType : String := "application/octet-stream"

/-- The media type of an extension in lower case. -/
def typeOfExtension? (extension : List Char) : Option String :=
  (mediaTypes.find? fun entry =>
    extension ∈ Text.pieces (· = ' ') entry.2.toList).map (·.1)

/-- Texts, and scripts under any name. -/
def isText (mediaType : String) : Bool :=
  "text/".toList.isPrefixOf mediaType.toList || mediaType = "application/javascript"

def mediaType (path : String) : String :=
  let extension := (Path.extension? path).map fun extension => extension.map Char.toLower
  (extension.bind typeOfExtension?).getD unknownType

/-- The content type that is sent with a file. -/
def contentType (path : String) : String :=
  let mediaType := mediaType path
  if isText mediaType then mediaType ++ "; charset=utf-8" else mediaType

end WebBundle.Serve
